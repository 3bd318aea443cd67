/-!
# JSON texts

A strict reader of JSON: one value, blanks around it, nothing else. Members of an object keep their
order and their repetitions, so that the reader of a record can refuse a member given twice. Numbers
are told apart only as far as records ask: a natural number below `2 ^ 64` written with digits
alone, an integer below zero, or any other number.
-/

namespace CallFill

/-- A JSON value. -/
inductive Json where
  | null
  | bool (b : Bool)
  /-- A number written with digits alone, below `2 ^ 64`. -/
  | natural (n : Nat)
  /-- The integer `-n`, with `n` above zero. -/
  | negative (n : Nat)
  /-- Any other number. -/
  | real
  | text (s : String)
  /-- A string with an escape that is half of a surrogate pair: well-formed, but no text. -/
  | brokenText
  | array (items : List Json)
  | object (members : List (String × Json))

namespace Json

/-- The blanks that may stand between the parts of a JSON text. -/
def isGap (c : Char) : Bool :=
  c == ' ' || c == '\n' || c == '\t' || c == '\r'

/-- Drops the blanks at the start. -/
def skipGaps (cs : List Char) : List Char :=
  cs.dropWhile isGap

/-- The value of a hexadecimal digit. -/
def hexDigit? (c : Char) : Option Nat :=
  if c.isDigit then some (c.toNat - '0'.toNat)
  else if 'a' ≤ c ∧ c ≤ 'f' then some (c.toNat - 'a'.toNat + 10)
  else if 'A' ≤ c ∧ c ≤ 'F' then some (c.toNat - 'A'.toNat + 10)
  else none

/-- The value of the first four characters as hexadecimal digits, and what follows them. -/
def hex4? : List Char → Option (Nat × List Char)
  | a :: b :: c :: d :: rest => do
    let a ← hexDigit? a
    let b ← hexDigit? b
    let c ← hexDigit? c
    let d ← hexDigit? d
    return (((a * 16 + b) * 16 + c) * 16 + d, rest)
  | _ => none

/-- The character of a one-letter escape. -/
def shortEscape? : Char → Option Char
  | '"' => some '"'
  | '\\' => some '\\'
  | '/' => some '/'
  | 'b' => some '\x08'
  | 'f' => some '\x0c'
  | 'n' => some '\n'
  | 'r' => some '\r'
  | 't' => some '\t'
  | _ => none

/-- What a string's characters read so far amount to: a text, or none once half of a surrogate pair
has been seen. -/
abbrev Content := Option (List Char)

/-- Reads the rest of a string after its opening quote; `acc` holds the characters so far, last one
first. -/
def readString : Nat → Content → List Char → Option (Json × List Char)
  | 0, _, _ => none
  | _ + 1, _, [] => none
  | _ + 1, acc, '"' :: rest =>
    some (match acc with
      | some cs => .text (String.ofList cs.reverse)
      | none => .brokenText, rest)
  | fuel + 1, acc, '\\' :: 'u' :: rest => do
    let (unit, rest) ← hex4? rest
    if 0xD800 ≤ unit ∧ unit < 0xDC00 then
      match rest with
      | '\\' :: 'u' :: rest' =>
        let (low, rest') ← hex4? rest'
        if 0xDC00 ≤ low ∧ low < 0xE000 then
          let c := Char.ofNat (0x10000 + (unit - 0xD800) * 0x400 + (low - 0xDC00))
          readString fuel (acc.map (c :: ·)) rest'
        else readString fuel none rest'
      | _ => readString fuel none rest
    else if 0xDC00 ≤ unit ∧ unit < 0xE000 then readString fuel none rest
    else readString fuel (acc.map (Char.ofNat unit :: ·)) rest
  | fuel + 1, acc, '\\' :: e :: rest => do
    let c ← shortEscape? e
    readString fuel (acc.map (c :: ·)) rest
  | fuel + 1, acc, c :: rest =>
    if c.toNat < 0x20 ∨ c = '\\' then none else readString fuel (acc.map (c :: ·)) rest

/-- The value of decimal digits. -/
def decimal (digits : List Char) : Nat :=
  digits.foldl (fun n c => n * 10 + (c.toNat - '0'.toNat)) 0

/-- Reads a fraction: a dot and at least one digit. The flag says whether there was one. -/
def readFraction : List Char → Option (Bool × List Char)
  | '.' :: rest =>
    if (rest.takeWhile Char.isDigit).isEmpty then none else some (true, rest.dropWhile Char.isDigit)
  | rest => some (false, rest)

/-- Reads an exponent: a letter, perhaps a sign, and at least one digit. The flag says whether there
was one. -/
def readExponent : List Char → Option (Bool × List Char)
  | e :: rest =>
    if e == 'e' || e == 'E' then
      let digits := match rest with
        | '+' :: r => r
        | '-' :: r => r
        | r => r
      if (digits.takeWhile Char.isDigit).isEmpty then none
      else some (true, digits.dropWhile Char.isDigit)
    else some (false, e :: rest)
  | [] => some (false, [])

/-- Reads a number without its sign. -/
def readNumber (isNegative : Bool) (cs : List Char) : Option (Json × List Char) := do
  let digits := cs.takeWhile Char.isDigit
  let rest := cs.dropWhile Char.isDigit
  if digits.isEmpty || (digits.head? == some '0' && digits.length > 1) then none
  let (hasFraction, rest) ← readFraction rest
  let (hasExponent, rest) ← readExponent rest
  let n := decimal digits
  if hasFraction || hasExponent then return (.real, rest)
  if isNegative then
    return (if 0 < n ∧ n ≤ UInt64.size / 2 then .negative n else .real, rest)
  return (if n < UInt64.size then .natural n else .real, rest)

/-- What follows a word at the start of the text. -/
def afterWord? : List Char → List Char → Option (List Char)
  | [], rest => some rest
  | w :: ws, c :: cs => if w = c then afterWord? ws cs else none
  | _ :: _, [] => none

mutual

/-- Reads one value at the start of the text. -/
def readValue : Nat → List Char → Option (Json × List Char)
  | 0, _ => none
  | fuel + 1, cs =>
    match cs with
    | '"' :: rest => readString (rest.length + 1) (some []) rest
    | '[' :: rest =>
      match skipGaps rest with
      | ']' :: rest => some (.array [], rest)
      | rest => do
        let (items, rest) ← readItems fuel rest
        return (.array items, rest)
    | '{' :: rest =>
      match skipGaps rest with
      | '}' :: rest => some (.object [], rest)
      | rest => do
        let (members, rest) ← readMembers fuel rest
        return (.object members, rest)
    | '-' :: rest => readNumber true rest
    | 'n' :: _ => (afterWord? ['n', 'u', 'l', 'l'] cs).map (.null, ·)
    | 't' :: _ => (afterWord? ['t', 'r', 'u', 'e'] cs).map (.bool true, ·)
    | 'f' :: _ => (afterWord? ['f', 'a', 'l', 's', 'e'] cs).map (.bool false, ·)
    | _ => readNumber false cs

/-- Reads the items of an array up to its closing bracket. -/
def readItems : Nat → List Char → Option (List Json × List Char)
  | 0, _ => none
  | fuel + 1, cs => do
    let (item, rest) ← readValue fuel (skipGaps cs)
    match skipGaps rest with
    | ']' :: rest => return ([item], rest)
    | ',' :: rest =>
      let (items, rest) ← readItems fuel rest
      return (item :: items, rest)
    | _ => none

/-- Reads the members of an object up to its closing brace. -/
def readMembers : Nat → List Char → Option (List (String × Json) × List Char)
  | 0, _ => none
  | fuel + 1, cs =>
    match skipGaps cs with
    | '"' :: rest => do
      let (.text key, rest) ← readString (rest.length + 1) (some []) rest | none
      let ':' :: rest := skipGaps rest | none
      let (value, rest) ← readValue fuel (skipGaps rest)
      match skipGaps rest with
      | '}' :: rest => return ([(key, value)], rest)
      | ',' :: rest =>
        let (members, rest) ← readMembers fuel rest
        return ((key, value) :: members, rest)
      | _ => none
    | _ => none

end

/-- The value a JSON text denotes. Each level of the reader is entered after a character was read,
so the length of the text bounds their number. -/
def ofText? (s : String) : Option Json := do
  let cs := s.toList
  let (value, rest) ← readValue (2 * cs.length + 2) (skipGaps cs)
  if (skipGaps rest).isEmpty then some value else none

/-- The one value of a member, none if the object has no such member. Refuses a member given
twice. -/
def member? (members : List (String × Json)) (key : String) : Option (Option Json) :=
  match (members.filter (·.1 = key)).map (·.2) with
  | [] => some none
  | [value] => some (some value)
  | _ => none

/-- The texts of an array of strings. -/
def texts? : List Json → Option (List String)
  | [] => some []
  | .text s :: rest => (texts? rest).map (s :: ·)
  | _ => none

/-- The pairs of an object whose values are strings. -/
def textMembers? : List (String × Json) → Option (List (String × String))
  | [] => some []
  | (key, .text s) :: rest => (textMembers? rest).map ((key, s) :: ·)
  | _ => none

/-- Reads a member of a record: absent keeps what is there, present must have the right form. -/
def field {α : Type} (members : List (String × Json)) (key : String) (current : α)
    (read? : Json → Option α) : Option α := do
  match ← member? members key with
  | none => return current
  | some value => read? value

end Json

end CallFill
