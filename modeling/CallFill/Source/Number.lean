/-!
# Number literals

How many characters at the start of a text are a number literal. Digits may be grouped by single
underscores; a number with a base prefix is whole; a point or an exponent makes it fractional.
-/

namespace CallFill.Source.Number

/-- Digits of the kind `p` with single underscores between and after them: how many characters. An
underscore may come next if `mayMark` says so. -/
def digitsFrom (p : Char → Bool) : Bool → List Char → Nat
  | _, [] => 0
  | mayMark, c :: cs =>
    if p c then 1 + digitsFrom p true cs
    else if mayMark && c == '_' then 1 + digitsFrom p false cs
    else 0

/-- Digits with single underscores between and after them: how many characters. -/
def digits (cs : List Char) : Nat :=
  digitsFrom Char.isDigit false cs

/-- Digits of the kind `p`, each group after at most one underscore: how many characters. -/
def groups (p : Char → Bool) : List Char → Nat
  | [] => 0
  | c :: cs => if p c || (c == '_' && cs.head?.any p) then 1 + groups p cs else 0

/-- One more if the character after `n` characters is one of these. -/
def suffixed (letters : List Char) (cs : List Char) (n : Nat) : Nat :=
  match cs[n]? with
  | some c => if letters.contains c then n + 1 else n
  | none => n

/-- The length of an exponent at the start of the text. -/
def exponent (cs : List Char) : Nat :=
  match cs with
  | e :: rest =>
    if e == 'e' || e == 'E' then
      match rest with
      | s :: rest' =>
        if s == '+' || s == '-' then
          let n := digits rest'
          if n = 0 then 0 else 2 + n
        else
          let n := digits rest
          if n = 0 then 0 else 1 + n
      | [] => 0
    else 0
  | [] => 0

/-- The digits a base letter allows. -/
def base? (letter : Char) : Option (Char → Bool) :=
  if letter == 'x' || letter == 'X' then
    some fun c => c.isDigit || ('a' ≤ c && c ≤ 'f') || ('A' ≤ c && c ≤ 'F')
  else if letter == 'o' || letter == 'O' then some fun c => '0' ≤ c && c ≤ '7'
  else if letter == 'b' || letter == 'B' then some fun c => c == '0' || c == '1'
  else none

/-- The length of a number with a base prefix at the start of the text; zero if there is none. -/
def based : List Char → Nat
  | '0' :: letter :: rest =>
    match base? letter with
    | some p =>
      let n := groups p rest
      if n = 0 then 0 else 2 + suffixed ['L', 'l'] rest n
    | none => 0
  | _ => 0

/-- The length of the number at the start of the text, and whether it is fractional; the length is
zero if no number starts there. -/
def scan (cs : List Char) : Nat × Bool :=
  let b := based cs
  if 0 < b then (b, false)
  else
    let n := digits cs
    match cs.drop n with
    | '.' :: rest =>
      let m := digits rest
      if n = 0 && m = 0 then (0, false)
      else
        let k := n + 1 + m
        (suffixed ['L', 'l', 'j', 'J'] cs (k + exponent (cs.drop k)), true)
    | rest =>
      if n = 0 then (0, false)
      else
        let e := exponent rest
        if 0 < e then (suffixed ['L', 'l', 'j', 'J'] cs (n + e), true)
        else (suffixed ['L', 'l', 'j', 'J'] cs n, false)

end CallFill.Source.Number
