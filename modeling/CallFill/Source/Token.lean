/-!
# Tokens

The words, numbers, strings and marks of a source text, each with the byte offsets where it starts
and ends. Line ends and changes of indentation are tokens of no length; they occur only outside
brackets. A string is several tokens: its opening, pieces of its content, the holes of a formatted
string with the tokens inside them, and its end.
-/

namespace CallFill.Source

/-- What a token is. -/
inductive TokenKind where
  /-- An identifier or a keyword. -/
  | word
  | integer
  | float
  /-- An operator, a bracket or a separator. -/
  | mark
  | stringStart
  | stringContent
  | stringEnd
  /-- The brace that opens a hole of a formatted string. -/
  | holeStart
  | holeEnd
  /-- The letter after an exclamation mark in a hole. -/
  | conversion
  /-- The colon before the format of a hole. -/
  | formatStart
  | formatText
  | newline
  | indent
  | dedent
  /-- A character no token starts with, or a string that does not end. -/
  | unknown
  deriving DecidableEq, Repr

/-- A token with its place in the text. -/
structure Token where
  kind : TokenKind
  text : String
  start : Nat
  stop : Nat
  deriving DecidableEq, Repr

namespace Token

/-- Whether the token takes up room in the text. -/
def isSolid (t : Token) : Bool :=
  t.kind != .newline && t.kind != .indent && t.kind != .dedent

/-- Whether the token is this word. -/
def isWord (w : String) (t : Token) : Bool :=
  t.kind = .word && t.text = w

/-- Whether the token is this mark. -/
def isMark (m : String) (t : Token) : Bool :=
  t.kind = .mark && t.text = m

end Token

/-- A stretch of the text between two byte offsets. -/
structure Span where
  start : Nat
  stop : Nat
  deriving DecidableEq, Repr

end CallFill.Source
