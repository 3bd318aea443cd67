import CallFill.Source.SyntaxTree

/-!
# Grammars

A grammar says which tokens may come next and which trees they leave. Grammars are data, built from
a few forms, and may refer to rules by name; `Grammar.run` reads tokens by a grammar. A choice takes
the first of two grammars that reads something, and a repetition reads as often as it can, so a text
is read in at most one way.

A tree covers the tokens from the first to the last read for it. Its kind may depend on what was
read: a `tag` inside it decides.
-/

namespace CallFill.Source

/-- A kind for the tree being built, and a role in it for the tree it extends. -/
structure Tag where
  kind : Kind
  leftRole : Option Role := none

/-- What may come next, with rules named by `ρ`. -/
inductive Grammar (ρ : Type) where
  /-- A token, which leaves no tree. -/
  | token (test : Token → Bool)
  /-- A token as a tree of its own. -/
  | leaf (kind : Kind) (test : Token → Bool)
  | rule (name : ρ)
  /-- Nothing. -/
  | empty
  | seq (first second : Grammar ρ)
  | choice (first second : Grammar ρ)
  /-- As often as it can be read. -/
  | many (item : Grammar ρ)
  /-- A tree around what is read. -/
  | node (kind : Kind) (inner : Grammar ρ)
  /-- Reads a tree and then, once or as often as possible, a tagged addition that takes it in. -/
  | extend (base addition : Grammar ρ) (again : Bool)
  | tag (t : Tag)
  /-- Gives the trees that are read a role. -/
  | role (r : Role) (inner : Grammar ρ)
  /-- Reads nothing, but only where the grammar could be read. -/
  | ahead (inner : Grammar ρ)
  /-- Reads nothing, but only where the grammar could not be read. -/
  | absent (inner : Grammar ρ)
  /-- Reads one tree, and goes on as its kind says. -/
  | byKind (test : Kind → Bool) (inner yes no : Grammar ρ)

/-- The tokens to be read, and where the last token read ended. -/
structure Reader where
  last : Nat
  rest : List Token

/-- What was read. -/
structure Reading where
  trees : List SyntaxTree
  tag : Option Tag
  after : Reader

namespace Reader

/-- Reads the next token if it passes the test. -/
def next (r : Reader) (test : Token → Bool) : Option (Token × Reader) :=
  match r.rest with
  | [] => none
  | t :: rest =>
    if test t then some (t, { last := if t.isSolid then t.stop else r.last, rest }) else none

/-- What is covered by the tokens between two points of reading: from the first of them that takes
up room to the last. -/
def span (before after : Reader) : Span :=
  if after.last = before.last then ⟨before.last, before.last⟩
  else
    match before.rest.find? Token.isSolid with
    | some t => ⟨t.start, after.last⟩
    | none => ⟨before.last, after.last⟩

end Reader

namespace Grammar

variable {ρ : Type} (rules : ρ → Grammar ρ)

mutual

/-- Reads tokens by a grammar, through at most so many steps into it. -/
def run : Nat → Grammar ρ → Reader → Option Reading
  | 0, _, _ => none
  | fuel + 1, g, r =>
    match g with
    | token test => (r.next test).map fun (_, r) => ⟨[], none, r⟩
    | leaf kind test =>
      (r.next test).map fun (t, r) => ⟨[.node kind none t.start t.stop []], none, r⟩
    | rule name => run fuel (rules name) r
    | empty => some ⟨[], none, r⟩
    | seq a b =>
      match run fuel a r with
      | none => none
      | some ra =>
        match run fuel b ra.after with
        | none => none
        | some rb =>
          some ⟨ra.trees ++ rb.trees, rb.tag.or ra.tag, rb.after⟩
    | choice a b =>
      match run fuel a r with
      | some reading => some reading
      | none => run fuel b r
    | many item =>
      match run fuel item r with
      | none => some ⟨[], none, r⟩
      | some first =>
        if first.after.rest.length < r.rest.length then
          match run fuel (many item) first.after with
          | none => none
          | some more => some ⟨first.trees ++ more.trees, more.tag.or first.tag, more.after⟩
        else some ⟨[], none, r⟩
    | node kind inner =>
      match run fuel inner r with
      | none => none
      | some reading =>
        let kind := match reading.tag with
          | some chosen => chosen.kind
          | none => kind
        let span := r.span reading.after
        some ⟨[.node kind none span.start span.stop reading.trees], none, reading.after⟩
    | extend base addition again =>
      match run fuel base r with
      | some ⟨[t], _, after⟩ => some (extendFrom fuel addition again t after)
      | reading => reading
    | tag t => some ⟨[], some t, r⟩
    | role part inner =>
      (run fuel inner r).map fun reading =>
        { reading with trees := reading.trees.map (SyntaxTree.withRole part) }
    | ahead inner =>
      match run fuel inner r with
      | some _ => some ⟨[], none, r⟩
      | none => none
    | absent inner =>
      match run fuel inner r with
      | some _ => none
      | none => some ⟨[], none, r⟩
    | byKind test inner yes no =>
      match run fuel inner r with
      | some ⟨[t], chosen, after⟩ =>
        (run fuel (if test t.kind then yes else no) after).map fun more =>
          ⟨t :: more.trees, more.tag.or chosen, more.after⟩
      | _ => none

/-- Reads additions that take a tree in, as long as there are any. -/
def extendFrom : Nat → Grammar ρ → Bool → SyntaxTree → Reader → Reading
  | 0, _, _, t, r => ⟨[t], none, r⟩
  | fuel + 1, addition, again, t, r =>
    match run fuel addition r with
    | some ⟨trees, some chosen, after⟩ =>
      let left := match chosen.leftRole with
        | some part => t.withRole part
        | none => t
      let whole := SyntaxTree.node chosen.kind none t.start after.last (left :: trees)
      if again then extendFrom fuel addition again whole after else ⟨[whole], none, after⟩
    | _ => ⟨[t], none, r⟩

end

/-- All of these, in order. -/
def all : List (Grammar ρ) → Grammar ρ
  | [] => empty
  | [g] => g
  | g :: gs => seq g (all gs)

/-- The first of these that can be read. -/
def oneOf : List (Grammar ρ) → Grammar ρ
  | [] => absent empty
  | [g] => g
  | g :: gs => choice g (oneOf gs)

/-- One tree of such a kind. -/
def ofKind (test : Kind → Bool) (g : Grammar ρ) : Grammar ρ :=
  byKind test g empty (absent empty)

/-- The grammar or nothing. -/
def optional (g : Grammar ρ) : Grammar ρ :=
  choice g empty

/-- One or more. -/
def many1 (g : Grammar ρ) : Grammar ρ :=
  seq g (many g)

/-- A keyword. -/
def word (w : String) : Grammar ρ :=
  token (Token.isWord w)

/-- A mark. -/
def mark (m : String) : Grammar ρ :=
  token (Token.isMark m)

/-- A token of a kind. -/
def kinded (k : TokenKind) : Grammar ρ :=
  token fun t => t.kind = k

/-- One or more with commas between them. -/
def commaSeparated (g : Grammar ρ) : Grammar ρ :=
  seq g (many (seq (mark ",") g))

/-- One or more with commas between them and perhaps one at the end. -/
def commaList (g : Grammar ρ) : Grammar ρ :=
  seq (commaSeparated g) (optional (mark ","))

/-- Decides the kind of the tree around it. -/
def becomes (kind : Kind) : Grammar ρ :=
  tag { kind }

/-- Decides the kind of the tree around it and the role of the tree it takes in. -/
def takesIn (kind : Kind) (leftRole : Role) : Grammar ρ :=
  tag { kind, leftRole := some leftRole }

end Grammar

end CallFill.Source
