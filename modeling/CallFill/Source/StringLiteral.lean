/-!
# String literals

Where a string starts and with which marks, and how far its content reaches: up to the quotes that
close it or to a hole of a formatted string. A backslash takes the next character with it where the
two form an escape; a line end closes nothing, and is refused in a string of single quotes unless it
opens a piece of content.
-/

namespace CallFill.Source

/-- How a string was opened. -/
structure Quote where
  mark : Char
  isTriple : Bool
  isFormat : Bool
  isRaw : Bool
  isBytes : Bool
  deriving DecidableEq, Repr

namespace Quote

/-- The marks that may open a string. -/
def isQuoteMark (c : Char) : Bool :=
  c == '\'' || c == '"' || c == '\x60'

/-- The letters that may stand before the opening mark. -/
def isFlag (c : Char) : Bool :=
  c == 'f' || c == 'F' || c == 'r' || c == 'R' || c == 'b' || c == 'B' || c == 'u' || c == 'U'

/-- The opening of a string at the start of the text and its length. -/
def open? (cs : List Char) : Option (Quote × Nat) :=
  let flags := cs.takeWhile isFlag
  match cs.dropWhile isFlag with
  | [] => none
  | c :: rest =>
    if isQuoteMark c then
      let isTriple := c != '\x60' && rest.head? == some c && rest.tail.head? == some c
      some ({
        mark := c
        isTriple
        isFormat := flags.any fun f => f == 'f' || f == 'F'
        isRaw := flags.any fun f => f == 'r' || f == 'R'
        isBytes := flags.any fun f => f == 'b' || f == 'B' },
        flags.length + (if isTriple then 3 else 1))
    else none

end Quote

/-- The first `n` characters satisfy `p`. -/
def startsWithMany (p : Char → Bool) (n : Nat) (cs : List Char) : Bool :=
  (cs.take n).length == n && (cs.take n).all p

/-- Whether the character is a hexadecimal digit. -/
def isHexDigit (c : Char) : Bool :=
  c.isDigit || ('a' ≤ c && c ≤ 'f') || ('A' ≤ c && c ≤ 'F')

/-- The length of the escape that a backslash opens; `rest` follows the backslash. A backslash that
opens none stands for itself. -/
def escapeLength (rest : List Char) : Nat :=
  match rest with
  | [] => 1
  | c :: more =>
    if c == 'u' then if startsWithMany isHexDigit 4 more then 6 else 1
    else if c == 'U' then if startsWithMany isHexDigit 8 more then 10 else 1
    else if c == 'x' then if startsWithMany isHexDigit 2 more then 4 else 1
    else if c.isDigit then 1 + ((rest.take 3).takeWhile Char.isDigit).length
    else if c == '\n' then 2
    else if c == '\r' then if more.head? == some '\n' then 3 else 1
    else if c == 'N' then
      match more with
      | '\x7b' :: name =>
        let n := (name.takeWhile (· != '\x7d')).length
        if 0 < n && (name.drop n).head? == some '\x7d' then 4 + n else 1
      | _ => 1
    else if "'\"abfrntv\\".toList.contains c then 2
    else 1

/-- How a piece of content ends. -/
inductive ContentEnd where
  /-- At the closing quotes. -/
  | quotes
  /-- At the brace of a hole. -/
  | hole
  deriving DecidableEq, Repr

/-- What was read of a string's content: its length in characters, whether it counts as content, and
how it ends. -/
structure Content where
  length : Nat
  isContent : Bool
  ending : ContentEnd
  deriving DecidableEq, Repr

namespace Content

/-- Content after `n` more characters of content. -/
def grow (n : Nat) (c : Content) : Content :=
  { c with length := n + c.length, isContent := true }

/-- Content after `n` more characters that do not make content of themselves. -/
def skip (n : Nat) (c : Content) : Content :=
  { c with length := n + c.length }

end Content

/-- Reads the content of a string. `fresh` says that no character was read since the string or the
last escape began. None if the string does not end. -/
def readContent (q : Quote) : Nat → Bool → List Char → Option Content
  | 0, _, _ => none
  | _ + 1, _, [] => none
  | fuel + 1, fresh, c :: rest =>
    if q.isFormat && c == '\x7b' then
      if rest.head? == some '\x7b' then (readContent q fuel true rest.tail).map (·.grow 2)
      else some ⟨0, false, .hole⟩
    else if q.isFormat && c == '\x7d' then
      if rest.head? == some '\x7d' then (readContent q fuel true rest.tail).map (·.grow 2)
      else none
    else if c == '\\' then
      if q.isRaw then
        let n := if rest.head? == some q.mark || rest.head? == some '\\' then 2 else 1
        let rest := rest.drop (n - 1)
        let k := if rest.head? == some '\n' then 1
          else if rest.head? == some '\r' then
            if rest.tail.head? == some '\n' then 2 else 1
          else 0
        (readContent q fuel fresh (rest.drop k)).map (·.skip (n + k))
      else if q.isBytes && (rest.head? == some 'N' || rest.head? == some 'u' ||
          rest.head? == some 'U') then
        (readContent q fuel false (rest.drop 2)).map (·.grow 3)
      else
        let n := escapeLength rest
        (readContent q fuel true (rest.drop (n - 1))).map (·.grow n)
    else if c == q.mark then
      if q.isTriple then
        if rest.head? == some q.mark then
          if rest.tail.head? == some q.mark then some ⟨0, false, .quotes⟩
          else (readContent q fuel true rest.tail).map (·.grow 2)
        else (readContent q fuel true rest).map (·.grow 1)
      else some ⟨0, false, .quotes⟩
    else if c == '\n' && !fresh && !q.isTriple then none
    else (readContent q fuel false rest).map (·.grow 1)

end CallFill.Source
