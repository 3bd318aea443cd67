/-!
# Glob patterns

A pattern describes paths, byte by byte: `?` is any byte but a slash, `*` any number of them, and
`[...]` one byte of a class. `**` between slashes stands for any directories, a list in braces for
one of several patterns, and a backslash takes away the meaning of what follows it. A pattern is
read once into tokens; a path matches if it is spelled by them from its start to its end.
-/

namespace CallFill.Text

/-- A part of a glob pattern. -/
inductive GlobToken where
  | literal (c : Char)
  /-- One byte, no slash. -/
  | one
  /-- Any bytes, none of them a slash. -/
  | stretch
  /-- Directories at the start of a path, or none. -/
  | leading
  /-- What follows a slash. -/
  | trailing
  /-- A slash, or directories between two slashes. -/
  | between
  /-- One byte in one of some ranges, or in none of them. -/
  | oneOf (isNegated : Bool) (ranges : List (UInt8 × UInt8))
  deriving DecidableEq, Repr

/-- A glob pattern: alternatives, each a list of tokens. -/
abbrev Glob := List (List GlobToken)

namespace Glob

/-- The bytes of a text in UTF-8. -/
def bytes (cs : List Char) : List UInt8 :=
  cs.flatMap String.utf8EncodeChar

/-- The slash as a byte. -/
def slash : UInt8 := 47

/-- The ranges of bytes for a range of characters. -/
def byteRanges (first last : Char) : List (UInt8 × UInt8) :=
  let single (b : UInt8) : UInt8 × UInt8 := (b, b)
  let a := bytes [first]
  if first = last then a.map single
  else
    let b := bytes [last]
    match a.getLast?, b.head? with
    | some low, some high => a.dropLast.map single ++ [(low, high)] ++ (b.drop 1).map single
    | _, _ => []

/-- What the text after an opening bracket is. -/
inductive ClassReading where
  /-- A class, and what follows its closing bracket. -/
  | closed (ranges : List (Char × Char)) (rest : List Char)
  | unclosed
  /-- A range whose end comes before its start. -/
  | invalid

/-- Extends the last range up to a character, if it is in order. -/
def extendLast? (ranges : List (Char × Char)) (last : Char) : Option (List (Char × Char)) :=
  match ranges.getLast? with
  | some (first, _) => if first ≤ last then some (ranges.dropLast ++ [(first, last)]) else none
  | none => some [(last, last)]

/-- Reads a class. A closing bracket or a hyphen in the first place is a member, and so is a hyphen
in the last. -/
def readClass (isFirst inRange : Bool) (ranges : List (Char × Char)) : List Char → ClassReading
  | [] => .unclosed
  | c :: cs =>
    if c = ']' ∧ !isFirst then .closed (if inRange then ranges ++ [('-', '-')] else ranges) cs
    else if c = '-' ∧ !isFirst ∧ !inRange then readClass false true ranges cs
    else if inRange then
      match extendLast? ranges c with
      | some ranges => readClass false false ranges cs
      | none => .invalid
    else readClass false false (ranges ++ [(c, c)]) cs

/-- What has been read of a pattern: for each open brace the alternatives before it and the branches
that are complete, and the alternatives of the branch that is open. -/
structure Partial where
  frames : List (Glob × Glob) := []
  current : Glob := [[]]

namespace Partial

/-- Adds a token. -/
def push (p : Partial) (t : GlobToken) : Partial :=
  { p with current := p.current.map (· ++ [t]) }

/-- Puts a token for directories in the place of the slash before it; directories before that slash
stay as they are. -/
def replaceSlash (p : Partial) (t : GlobToken) : Partial :=
  { p with current := p.current.map fun ts =>
      match ts.getLast? with
      | some .leading | some .trailing => ts
      | _ => ts.dropLast ++ [t] }

/-- Whether nothing has been read of the open branch. -/
def isFresh (p : Partial) : Bool :=
  p.current.all List.isEmpty

/-- Opens a brace. -/
def openBrace (p : Partial) : Partial :=
  { frames := (p.current, []) :: p.frames }

/-- Ends a branch and begins the next; outside braces, a comma is a comma. -/
def comma (p : Partial) : Partial :=
  match p.frames with
  | [] => p.push (.literal ',')
  | (before, done) :: frames => { frames := (before, done ++ p.current) :: frames }

/-- Closes a brace, if one is open. Empty branches do not count. -/
def closeBrace? (p : Partial) : Option Partial :=
  match p.frames with
  | [] => none
  | (before, done) :: frames =>
    let branches := (done ++ p.current).filter fun ts => !ts.isEmpty
    some {
      frames
      current := if branches.isEmpty then before
        else before.flatMap fun ts => branches.map (ts ++ ·) }

end Partial

/-- Whether a branch may end here. -/
def endsBranch (p : Partial) : List Char → Bool
  | [] => true
  | c :: _ => !p.frames.isEmpty && (c == ',' || c == '\x7d')

/-- Reads a pattern, in at most so many steps; `afterSlash` says whether a slash was read last. -/
def readFrom : Nat → Partial → (afterSlash : Bool) → List Char → Option Partial
  | 0, _, _, _ => none
  | n + 1, p, afterSlash, cs =>
    match cs with
    | [] => some p
    | '?' :: cs => readFrom n (p.push .one) false cs
    | '*' :: '*' :: cs =>
      let plain := (p.push .stretch).push .stretch
      if p.isFresh then
        match cs with
        | [] => some (p.push .leading)
        | '/' :: cs => readFrom n (p.push .leading) true cs
        | cs => readFrom n plain false cs
      else if afterSlash then
        if endsBranch p cs then readFrom n (p.replaceSlash .trailing) false cs
        else
          match cs with
          | '/' :: cs => readFrom n (p.replaceSlash .between) true cs
          | cs => readFrom n plain false cs
      else readFrom n plain false cs
    | '*' :: cs => readFrom n (p.push .stretch) false cs
    | '[' :: cs =>
      let (isNegated, inner) := match cs with
        | '!' :: inner => (true, inner)
        | '^' :: inner => (true, inner)
        | inner => (false, inner)
      match readClass true false [] inner with
      | .closed ranges cs =>
        readFrom n (p.push (.oneOf isNegated (ranges.flatMap fun r => byteRanges r.1 r.2))) false cs
      | .unclosed => readFrom n (p.push (.literal '[')) false cs
      | .invalid => none
    | '\\' :: c :: cs => readFrom n (p.push (.literal c)) (c == '/') cs
    | ['\\'] => none
    | c :: cs =>
      if c = '\x7b' then readFrom n p.openBrace false cs
      else if c = '\x7d' then
        match p.closeBrace? with
        | some p => readFrom n p false cs
        | none => none
      else if c = ',' then readFrom n p.comma false cs
      else readFrom n (p.push (.literal c)) (c == '/') cs

/-- The pattern that a text spells. -/
def ofText? (text : List Char) : Option Glob :=
  match readFrom (text.length + 1) {} false text with
  | some p => if p.frames.isEmpty then some p.current else none
  | none => none

/-- What can follow a number of bytes without a slash. -/
def afterStretch : List UInt8 → List (List UInt8)
  | [] => [[]]
  | b :: bs => (b :: bs) :: (if b = slash then [] else afterStretch bs)

/-- What can follow any number of bytes. -/
def afterAny : List UInt8 → List (List UInt8)
  | [] => [[]]
  | b :: bs => (b :: bs) :: afterAny bs

/-- What follows each slash. -/
def afterSlashes : List UInt8 → List (List UInt8)
  | [] => []
  | b :: bs => (if b = slash then [bs] else []) ++ afterSlashes bs

/-- What follows some bytes at the start. -/
def afterBytes? : List UInt8 → List UInt8 → Option (List UInt8)
  | [], bs => some bs
  | _ :: _, [] => none
  | a :: as, b :: bs => if a = b then afterBytes? as bs else none

/-- What can follow the bytes that a token spells. -/
def GlobToken.after (t : GlobToken) (bs : List UInt8) : List (List UInt8) :=
  match t with
  | .literal c => (afterBytes? (bytes [c]) bs).toList
  | .one => match bs with
    | b :: rest => if b = slash then [] else [rest]
    | [] => []
  | .stretch => afterStretch bs
  | .leading => bs :: afterSlashes bs
  | .trailing => match bs with
    | b :: rest => if b = slash then afterAny rest else []
    | [] => []
  | .between => match bs with
    | b :: rest => if b = slash then rest :: afterSlashes rest else []
    | [] => []
  | .oneOf isNegated ranges => match bs with
    | b :: rest =>
      if (ranges.any fun r => r.1 ≤ b && b ≤ r.2) != isNegated then [rest] else []
    | [] => []

/-- Whether tokens spell bytes from their start to their end. -/
def spells : List GlobToken → List UInt8 → Bool
  | [], bs => bs.isEmpty
  | t :: ts, bs => (GlobToken.after t bs).any (spells ts)

/-- Whether a path matches the pattern. Directories alone match every path. -/
def isMatch (g : Glob) (path : String) : Bool :=
  g.any fun ts => ts == [.leading] || spells ts (bytes path.toList)

end Glob

end CallFill.Text
