import CallFill.Handle

/-!
# Written values

A written value is the text of an expression together with the symbols that text needs imported. The
sentinel `...` stands wherever nothing better is known.
-/

namespace CallFill

/-- The text of an expression and the symbols it needs, in the order in which they were needed
first. -/
structure Value where
  text : String
  symbols : List SymbolId := []
  deriving DecidableEq, Repr

/-- The placeholder for a value nothing is known about. -/
def sentinel : String := "..."

/-- The members of the second list that are new, after those of the first. -/
def mergeSymbols (symbols more : List SymbolId) : List SymbolId :=
  more.foldl (fun acc s => if acc.contains s then acc else acc ++ [s]) symbols

/-- Whether the second text stands somewhere in the first. -/
def occursIn (piece : List Char) : List Char → Bool
  | [] => piece.isEmpty
  | c :: cs => piece.isPrefixOf (c :: cs) || occursIn piece cs

namespace Value

/-- The placeholder as a value. -/
def unknown : Value := { text := sentinel }

/-- Whether the value is the placeholder itself. -/
def isSentinel (v : Value) : Bool :=
  v.text = sentinel

/-- Whether the placeholder stands somewhere in the value. -/
def containsSentinel (v : Value) : Bool :=
  occursIn sentinel.toList v.text.toList

/-- The value, needing also the symbols of another. -/
def absorb (v other : Value) : Value :=
  { v with symbols := mergeSymbols v.symbols other.symbols }

/-- The value between two texts. -/
def wrap (v : Value) (opening closing : String) : Value :=
  { v with text := opening ++ v.text ++ closing }

end Value

theorem occursIn_iff_infix {piece cs : List Char} : occursIn piece cs = true ↔ piece <:+: cs := by
  induction cs with
  | nil => rw [occursIn, List.isEmpty_iff, List.infix_nil]
  | cons c cs ih =>
    rw [occursIn, Bool.or_eq_true, ih, List.isPrefixOf_iff_prefix, List.infix_cons_iff]

theorem mem_mergeSymbols {s : SymbolId} {symbols more : List SymbolId} :
    s ∈ mergeSymbols symbols more ↔ s ∈ symbols ∨ s ∈ more := by
  induction more generalizing symbols with
  | nil => simp [mergeSymbols]
  | cons m more ih =>
    show s ∈ mergeSymbols (if symbols.contains m then symbols else symbols ++ [m]) more ↔ _
    rw [ih]
    by_cases hm : symbols.contains m = true
    · have : m ∈ symbols := by simpa using hm
      rw [if_pos hm, List.mem_cons]
      constructor
      · rintro (h | h)
        · exact Or.inl h
        · exact Or.inr (Or.inr h)
      · rintro (h | rfl | h)
        · exact Or.inl h
        · exact Or.inl this
        · exact Or.inr h
    · rw [if_neg hm, List.mem_append, List.mem_singleton, List.mem_cons, or_assoc]

/-- What the values of a list need, taken together. -/
theorem mem_foldl_mergeSymbols {α : Type} {needs : α → List SymbolId} {as : List α}
    {symbols : List SymbolId} {id : SymbolId} :
    id ∈ as.foldl (fun acc a => mergeSymbols acc (needs a)) symbols ↔
      id ∈ symbols ∨ ∃ a ∈ as, id ∈ needs a := by
  induction as generalizing symbols with
  | nil => simp
  | cons a as ih =>
      rw [List.foldl_cons, ih, mem_mergeSymbols, or_assoc]
      simp

end CallFill
