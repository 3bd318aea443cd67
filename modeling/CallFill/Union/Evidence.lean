import CallFill.Text.Blank
import CallFill.Text.Digit
import CallFill.Text.Dotted
import CallFill.Value

/-!
# What an expression's text shows

The text that stands in for a value, a default say, may show which type it has: a call names its
class, a literal has the form of its type. The tests here look at the text alone and never evaluate
it.
-/

namespace CallFill.Evidence

open Text

/-- Letters, digits, underscores and dots of a callee's name. -/
def isNameChar (c : Char) : Bool :=
  c.isAlphanum || c == '_' || c == '.'

/-- The dotted name a text starts with, if an opening parenthesis follows it. -/
def callee? (text : List Char) : Option (List Char) :=
  match text with
  | [] => none
  | c :: _ =>
    if c.isAlpha || c == '_' then
      match (text.dropWhile isNameChar).dropWhile isBlank with
      | '(' :: _ => some (text.takeWhile isNameChar)
      | _ => none
    else none

/-- The text without a leading sign. -/
def unsigned : List Char → List Char
  | '+' :: cs => cs
  | '-' :: cs => cs
  | cs => cs

/-- Digits and the underscores between them. -/
def isDigitOrMark (c : Char) : Bool :=
  isDecimalDigit c || c == '_'

/-- Whether the text starts with a digit. -/
def startsWithDigit : List Char → Bool
  | c :: _ => isDecimalDigit c
  | [] => false

/-- Whether the text is one or more digits. -/
def isDigits (cs : List Char) : Bool :=
  !cs.isEmpty && cs.all isDecimalDigit

/-- Whether the text is a whole number, perhaps signed. -/
def isInteger (text : List Char) : Bool :=
  let cs := unsigned text
  startsWithDigit cs && cs.all isDigitOrMark

/-- Whether the text is an exponent: a letter, perhaps a sign, and digits. -/
def isExponent : List Char → Bool
  | e :: rest => (e == 'e' || e == 'E') && isDigits (unsigned rest)
  | [] => false

/-- Whether the text is a number with a point or an exponent, perhaps signed. -/
def isFloat (text : List Char) : Bool :=
  let cs := unsigned text
  if startsWithDigit cs then
    match cs.dropWhile isDigitOrMark with
    | '.' :: rest =>
      let rest := rest.dropWhile isDecimalDigit
      rest.isEmpty || isExponent rest
    | rest => isExponent rest
  else
    match cs with
    | '.' :: rest => isDigits rest
    | _ => false

/-- Whether the text starts with a quote. -/
def startsWithQuote : List Char → Bool
  | c :: _ => c == '\'' || c == '"'
  | [] => false

/-- Whether the text starts as a string literal does. -/
def isString (text : List Char) : Bool :=
  startsWithQuote (text.dropWhile fun c => "rRuUfF".toList.contains c)

/-- The text without a leading mark of a raw literal. -/
def afterRaw : List Char → List Char
  | 'r' :: cs => cs
  | 'R' :: cs => cs
  | cs => cs

/-- Whether the text starts as a bytes literal does. -/
def isBytes (text : List Char) : Bool :=
  match afterRaw text with
  | c :: rest => (c == 'b' || c == 'B') && startsWithQuote (afterRaw rest)
  | [] => false

/-- Whether the text, which is no call, has the form of a literal of the type with this name. -/
def hasFormOf (text : List Char) (name : String) : Bool :=
  if name = "str" then isString text
  else if name = "bytes" then isBytes text
  else if name = "int" then isInteger text
  else if name = "float" then isFloat text
  else if name = "bool" then text == "True".toList || text == "False".toList
  else if name = "list" then text.head? == some '['
  else if name = "tuple" then text.head? == some '('
  else if name = "dict" then
    text == ['\x7b', '\x7d'] || (text.head? == some '\x7b' && text.contains ':')
  else if name = "set" then
    text.head? == some '\x7b' && !text.contains ':' && text != ['\x7b', '\x7d']
  else false

/-- Whether the text shows a value of the type with this short name. -/
def shows (text : List Char) (name : String) : Bool :=
  match callee? text with
  | some callee => Dotted.last (String.ofList callee) = name
  | none => hasFormOf text name

end CallFill.Evidence
