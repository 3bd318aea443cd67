import CallFill.Source.Number
import CallFill.Source.StringLiteral
import CallFill.Source.Token
import CallFill.Text.Bytes
import CallFill.Text.Identifier

/-!
# From text to tokens

`lex` reads a source text from left to right. Inside brackets and holes line ends are blanks;
elsewhere a line end closes a logical line, and the blanks that open the next one are compared with
the indentation of the enclosing blocks. A block opens only after a colon.

Comments and blanks leave no token. A backslash at the end of a line joins it to the next; such
joints are returned beside the tokens, for the tree shows them.
-/

namespace CallFill.Source

/-- What the text being read is part of. -/
inductive Context where
  /-- Between brackets. -/
  | bracket
  /-- Content of a string. -/
  | string (q : Quote)
  /-- A hole of a formatted string. -/
  | hole
  /-- The format of a hole. -/
  | format
  deriving DecidableEq, Repr

/-- What has been read so far. -/
structure Lexer where
  /-- The byte offset reached. -/
  pos : Nat := 0
  /-- The open contexts, innermost first. -/
  contexts : List Context := []
  /-- The indentation of the open blocks, innermost first. -/
  indents : List Nat := []
  /-- The width of the blanks since the line began, until something else follows on the line. -/
  width : Option Nat := none
  /-- The tokens so far, last one first. -/
  tokens : List Token := []
  /-- The joined line ends so far, last one first. -/
  joints : List Span := []

namespace Lexer

/-- Passes over characters that leave no token. -/
def skip (l : Lexer) (cs : List Char) : Lexer :=
  { l with pos := l.pos + Text.byteLength cs }

/-- Reads characters as one token. -/
def emit (l : Lexer) (kind : TokenKind) (cs : List Char) : Lexer :=
  let stop := l.pos + Text.byteLength cs
  { l with pos := stop, tokens := ⟨kind, String.ofList cs, l.pos, stop⟩ :: l.tokens }

/-- Enters a context. -/
def enter (l : Lexer) (c : Context) : Lexer :=
  { l with contexts := c :: l.contexts }

/-- Leaves the innermost context. -/
def leave (l : Lexer) : Lexer :=
  { l with contexts := l.contexts.tail }

/-- Whether a logical line has begun. -/
def inLine (l : Lexer) : Bool :=
  l.tokens.head?.any Token.isSolid

/-- The indentation of the innermost block. -/
def currentIndent (l : Lexer) : Nat :=
  l.indents.headD 0

/-- Ends the logical line, if one has begun. -/
def endLine (l : Lexer) : Lexer :=
  if l.inLine then l.emit .newline [] else l

/-- Closes the blocks that are indented more than `width`. -/
def closeBlocks (width : Nat) : List Nat → Lexer → Lexer
  | [], l => { l with indents := [] }
  | i :: rest, l =>
    if width < i then closeBlocks width rest (l.emit .dedent [])
    else { l with indents := i :: rest }

/-- Whether the last line ended with a colon. -/
def afterColon (l : Lexer) : Bool :=
  match l.tokens with
  | newline :: last :: _ => newline.kind = .newline && last.isMark ":"
  | _ => false

/-- Compares the indentation of a line, once something stands on it, with the open blocks. -/
def settle (l : Lexer) : Lexer :=
  match l.width with
  | none => l
  | some width =>
    let l := { l with width := none }
    if l.currentIndent < width then
      if l.afterColon then
        let l := l.emit .indent []
        { l with indents := width :: l.indents }
      else l
    else closeBlocks width l.indents l

/-- The marks of three characters, of two and of one. -/
def marks3 : List String := ["**=", "//=", ">>=", "<<=", "..."]

@[inherit_doc marks3]
def marks2 : List String := [
  "->", ":=", "==", "!=", "<=", ">=", "<>", "+=", "-=", "*=", "/=", "%=", "@=", "&=", "|=", "^=",
  "**", "//", "<<", ">>"]

@[inherit_doc marks3]
def marks1 : List Char := "()[]\x7b\x7d,:;.=+-*/%@&|^~<>".toList

/-- The length of the longest mark at the start of the text; zero if there is none. -/
def markLength (cs : List Char) : Nat :=
  if marks3.any fun m => m.toList.isPrefixOf cs then 3
  else if marks2.any fun m => m.toList.isPrefixOf cs then 2
  else
    match cs with
    | c :: _ => if marks1.contains c then 1 else 0
    | [] => 0

/-- Whether the character is passed over between tokens. -/
def isFiller (c : Char) : Bool :=
  c == ' ' || (9 ≤ c.toNat && c.toNat ≤ 13) || c == '\u200b' || c == '\u2060' || c == '\ufeff'

/-- The width of the blanks at the start of a line after one more of them. -/
def widen (width : Nat) (c : Char) : Nat :=
  if c == ' ' then width + 1
  else if c == '\t' then width + 8
  else if c == '\r' || c == '\x0c' || c == '\n' then 0
  else width

/-- Passes over a blank. -/
def filler (l : Lexer) (c : Char) : Lexer :=
  let l := { l with width := l.width.map (widen · c) }
  if c == '\n' && l.contexts.isEmpty then { l.endLine.skip [c] with width := some 0 }
  else l.skip [c]

/-- The length of a joined line end after a backslash; zero if there is none. -/
def jointLength : List Char → Nat
  | '\n' :: _ => 1
  | '\r' :: '\n' :: _ => 2
  | _ => 0

/-- Reads what starts with a mark, and enters or leaves the context it opens or closes. -/
def mark (l : Lexer) (cs : List Char) : Lexer × List Char :=
  let n := markLength cs
  if n = 0 then (l.emit .unknown (cs.take 1), cs.drop 1)
  else
    let m := cs.take n
    let plain := (l.emit .mark m, cs.drop n)
    match m with
    | ['('] | ['['] | ['\x7b'] => ((l.emit .mark m).enter .bracket, cs.drop n)
    | [')'] | [']'] | ['\x7d'] =>
      match l.contexts with
      | .bracket :: _ => ((l.emit .mark m).leave, cs.drop n)
      | .hole :: _ =>
        if m = ['\x7d'] then ((l.emit .holeEnd m).leave, cs.drop n) else plain
      | _ => plain
    | [':'] =>
      match l.contexts with
      | .hole :: _ => ((l.emit .formatStart m).leave.enter .format, cs.drop n)
      | _ => plain
    | _ => plain

/-- Reads one token, or passes over one blank, comment or joint, where code is expected. -/
def code (l : Lexer) (cs : List Char) : Lexer × List Char :=
  match cs with
  | [] => (l, [])
  | c :: rest =>
    if isFiller c then (l.filler c, rest)
    else if c == '#' then (l.skip (cs.takeWhile (· != '\n')), cs.dropWhile (· != '\n'))
    else if c == '\\' && 0 < jointLength rest then
      let n := 1 + jointLength rest
      let after := l.skip (cs.take n)
      ({ after with joints := ⟨l.pos, after.pos⟩ :: after.joints }, cs.drop n)
    else
      let l := l.settle
      match Quote.open? cs with
      | some (q, n) => ((l.emit .stringStart (cs.take n)).enter (.string q), cs.drop n)
      | none =>
        if Text.isIdentifierStart c then
          (l.emit .word (cs.takeWhile Text.isIdentifierRest), cs.dropWhile Text.isIdentifierRest)
        else
          match Number.scan cs with
          | (n + 1, isFloat) =>
            (l.emit (if isFloat then .float else .integer) (cs.take (n + 1)), cs.drop (n + 1))
          | (0, _) =>
            match l.contexts, c, rest with
            | .hole :: _, '!', letter :: more =>
              if 'a' ≤ letter && letter ≤ 'z' then (l.emit .conversion [c, letter], more)
              else l.mark cs
            | _, _, _ => l.mark cs

/-- Reads a piece of a string's content with what ends it. -/
def content (l : Lexer) (q : Quote) (cs : List Char) : Lexer × List Char :=
  match readContent q (cs.length + 1) true cs with
  | none => (l.emit .unknown cs, [])
  | some c =>
    let n := if c.isContent || c.ending = .hole then c.length else 0
    let l := if 0 < n then l.emit .stringContent (cs.take n) else l
    let rest := cs.drop n
    match c.ending with
    | .quotes =>
      let k := (c.length - n) + if q.isTriple then 3 else 1
      ((l.emit .stringEnd (rest.take k)).leave, rest.drop k)
    | .hole => ((l.emit .holeStart (rest.take 1)).enter .hole, rest.drop 1)

/-- Reads a piece of a hole's format with what ends it. -/
def formatPiece (l : Lexer) (cs : List Char) : Lexer × List Char :=
  match cs with
  | [] => (l, [])
  | '\x7b' :: rest => ((l.emit .holeStart ['\x7b']).enter .hole, rest)
  | '\x7d' :: rest => ((l.emit .holeEnd ['\x7d']).leave, rest)
  | '\n' :: rest => (l.skip ['\n'], rest)
  | _ =>
    let isText (c : Char) : Bool := c != '\x7b' && c != '\x7d' && c != '\n'
    (l.emit .formatText (cs.takeWhile isText), cs.dropWhile isText)

/-- Reads the next piece of the text. -/
def step (l : Lexer) (cs : List Char) : Lexer × List Char :=
  match l.contexts with
  | .string q :: _ => l.content q cs
  | .format :: _ => l.formatPiece cs
  | _ => l.code cs

/-- Reads the whole text, one piece after the other. -/
def run : Nat → Lexer → List Char → Lexer
  | 0, l, _ => l
  | _ + 1, l, [] => l
  | fuel + 1, l, cs =>
    let (l, rest) := l.step cs
    run fuel l rest

/-- Ends the last line and closes all blocks. -/
def finish (l : Lexer) : Lexer :=
  match l.contexts with
  | [] => closeBlocks 0 l.indents l.endLine
  | _ => l.emit .unknown []

end Lexer

/-- The tokens of a text and its joined line ends. Every piece takes at least one character. -/
def lex (cs : List Char) : List Token × List Span :=
  let l := (Lexer.run (cs.length + 1) {} cs).finish
  (l.tokens.reverse, l.joints.reverse)

end CallFill.Source
