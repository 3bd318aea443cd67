import CallFill.Text.Escaped

/-!
# Quoted text

A text as a message shows it: between double quotes, with a backslash before each quote and each
backslash, short escapes for the common control characters, and the code point in hexadecimal for
every other character that does not show on its own.
-/

namespace CallFill.Text

/-- A number in lower-case hexadecimal digits. -/
def hexadecimal (n : Nat) : List Char :=
  Nat.toDigits 16 n

/-- How a quoted text writes one character. -/
def quotedChar (c : Char) : List Char :=
  match c with
  | '\x00' => ['\\', '0']
  | '\t' => ['\\', 't']
  | '\r' => ['\\', 'r']
  | '\n' => ['\\', 'n']
  | '\\' => ['\\', '\\']
  | '"' => ['\\', '"']
  | c => if isUnshown c then ['\\', 'u', '\x7b'] ++ hexadecimal c.toNat ++ ['\x7d'] else [c]

/-- The text between double quotes, with escapes. -/
def quoted (s : String) : String :=
  String.ofList ('"' :: s.toList.flatMap quotedChar ++ ['"'])

end CallFill.Text
