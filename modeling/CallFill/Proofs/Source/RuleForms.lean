import CallFill.Proofs.Source.Forms
import CallFill.Source.Rules

/-!
# The forms of the rules

The rules for expressions, types and patterns take a token and leave one tree each, so that
additions may take this tree in; all rules leave their trees in order.
-/

namespace CallFill.Source.Rule

open Grammar

/-- The rules that read one expression, type, pattern or argument. -/
def IsOne : Rule → Prop
  | type | pattern | target | expression | expressions | conditional | disjunction | conjunction
  | inversion | comparison | binary _ | unary | power | awaited | primary | atom | element | yield
  | argument | arguments | parenthesis | bracket | brace | strings | string => True
  | _ => False

/-! ## Tokens -/

/-- Marks are code. -/
theorem isCode_of_isMark (m : String) (t : Token) (h : t.isMark m = true) :
    t.kind.isCode = true := by
  rw [Token.isMark, Bool.and_eq_true, decide_eq_true_iff] at h
  rw [h.1]
  rfl

/-- Words are code, whichever word is asked for. -/
theorem isCode_of_isWord (w : String) (t : Token) (h : t.isWord w = true) :
    t.kind.isCode = true := by
  rw [Token.isWord, Bool.and_eq_true, decide_eq_true_iff] at h
  rw [h.1]
  rfl

/-- A test for a kind of code is passed by code only. -/
theorem isCode_of_kind {k : TokenKind} (hk : k.isCode = true) (t : Token)
    (h : decide (t.kind = k) = true) : t.kind.isCode = true := by
  rw [of_decide_eq_true h]
  exact hk

theorem isCode_of_kind_and {k : TokenKind} {p : Token → Bool} (hk : k.isCode = true) (t : Token)
    (h : (decide (t.kind = k) && p t) = true) : t.kind.isCode = true :=
  isCode_of_kind hk t (Bool.and_eq_true_iff.1 h).1

variable {known : Rule → Prop}

@[simp] theorem takes_mark (m : String) : Takes known (mark m) :=
  isCode_of_isMark m

@[simp] theorem takes_word (w : String) : Takes known (word w) :=
  isCode_of_isWord w

@[simp] theorem takes_oneMark (marks : List String) : Takes known (oneMark marks) :=
  isCode_of_kind_and rfl

@[simp] theorem takes_wordBut (reserved : List String) : Takes known (wordBut reserved) :=
  isCode_of_kind_and rfl

@[simp] theorem takes_anyName : Takes known anyName :=
  isCode_of_kind rfl

@[simp] theorem takes_stringStart : Takes known (kinded .stringStart) :=
  isCode_of_kind rfl

/-- A leaf of code is a tree of its own. -/
theorem whole_leaf {kind : Kind} {test : Token → Bool} (h : Takes known (leaf kind test)) :
    Whole known (leaf kind test) :=
  fun t ht => isSolid_of_isCode (h t ht)

/-- A name that is not reserved is a tree of its own. -/
@[simp] theorem whole_wordBut (known : Rule → Prop) (reserved : List String) :
    Whole known (wordBut reserved) :=
  whole_leaf (takes_wordBut reserved)

@[simp] theorem whole_anyName (known : Rule → Prop) : Whole known anyName :=
  whole_leaf takes_anyName

/-! ## Rules that read one tree -/

/-- What begins with stars takes the token of the stars. -/
@[simp] theorem takes_starred (kind : Kind) (stars : String) : Takes known (starred kind stars) :=
  Or.inl (takes_mark stars)

/-- Stars and what they stand before are one tree. -/
@[simp] theorem whole_starred (kind : Kind) (stars : String) : Whole known (starred kind stars) :=
  takes_starred kind stars

/-- The rules for expressions, types, patterns and arguments take a token and leave one tree. -/
theorem reliable : Reliable definition IsOne := by
  intro name hname
  cases name with
  | binary level =>
      rw [definition]
      split
      · exact ⟨trivial, trivial⟩
      · exact ⟨trivial, trivial⟩
  | atom =>
      simp +contextual [definition, oneOf, identifier, IsOne, Takes, Whole, Token.isWord,
        Token.isMark, Token.isSolid, TokenKind.isCode]
  | _ =>
      first
        | exact absurd hname id
        | simp [IsOne, definition, definition.spread, definition.mapping, identifier, Takes, Whole,
            Bare, Still, all, oneOf, ofKind]

/-! ## Trees in order -/

@[simp] theorem orderly_mark (m : String) : Orderly known (mark m) := trivial

@[simp] theorem orderly_word (w : String) : Orderly known (word w) := trivial

@[simp] theorem orderly_kinded (k : TokenKind) : Orderly known (kinded k) := trivial

@[simp] theorem orderly_oneMark (marks : List String) : Orderly known (oneMark marks) := trivial

@[simp] theorem orderly_wordBut (reserved : List String) : Orderly known (wordBut reserved) :=
  whole_wordBut known reserved

@[simp] theorem orderly_anyName : Orderly known anyName :=
  whole_anyName known

@[simp] theorem orderly_becomes (kind : Kind) : Orderly known (becomes kind) := trivial

@[simp] theorem orderly_takesIn (kind : Kind) (part : Role) :
    Orderly known (takesIn kind part) := trivial

/-- What follows the stars is one expression, so its tree lies within the starred one. -/
@[simp] theorem orderly_starred (kind : Kind) (stars : String) :
    Orderly IsOne (starred kind stars) := by
  simp [starred, ofKind, Orderly, Whole, IsOne, targetTail, callTail, all]

/-- All rules leave their trees in order. -/
theorem orderly (name : Rule) : (definition name).Orderly IsOne := by
  cases name with
  | binary level =>
      rw [definition]
      split
      · simp [Orderly, Whole, IsOne, all]
      · trivial
  | _ =>
      simp +contextual [definition, IsOne, Orderly, Takes, Whole, Still, all, oneOf,
        Grammar.optional, many1, commaSeparated, commaList, ofKind, identifier, endOfStatement,
        importWords, wordStatement, body, comparisonOperator, listTail, typed, defaultValue,
        callTail, targetTail, bracketed, indented, stray, definition.sliceRest, definition.spread,
        definition.mapping, definition.entry, definition.braceTail, Token.isMark, Token.isWord,
        Token.isSolid]

end CallFill.Source.Rule
