/-!
# Text by byte offset

Positions in a document are byte offsets of its UTF-8 form. A position is usable only where a
character starts or the text ends: `splitAt?` cuts there and refuses every other offset, and
`slice?` is the piece between two usable offsets in order. `splice?` puts a text in the place of
such a piece. What is cut can be glued again (`splitAt?_eq_some_iff`), so these functions never
lose or invent a character.
-/

namespace CallFill.Text

/-- The number of bytes the characters take in UTF-8. -/
def byteLength : List Char → Nat
  | [] => 0
  | c :: cs => c.utf8Size + byteLength cs

@[simp] theorem byteLength_nil : byteLength [] = 0 := rfl

@[simp] theorem byteLength_cons (c : Char) (cs : List Char) :
    byteLength (c :: cs) = c.utf8Size + byteLength cs := rfl

@[simp] theorem byteLength_append (as bs : List Char) :
    byteLength (as ++ bs) = byteLength as + byteLength bs := by
  induction as with
  | nil => simp
  | cons a as ih => simp [ih, Nat.add_assoc]

/-- The characters before and after a byte offset, if a character starts or the text ends there. -/
def splitAt? : Nat → List Char → Option (List Char × List Char)
  | 0, cs => some ([], cs)
  | _ + 1, [] => none
  | n + 1, c :: cs =>
    if c.utf8Size ≤ n + 1 then
      (splitAt? (n + 1 - c.utf8Size) cs).map fun (before, after) => (c :: before, after)
    else none

theorem splitAt?_zero (cs : List Char) : splitAt? 0 cs = some ([], cs) := by
  cases cs <;> rfl

/-- Cutting at the length of a prefix gives the prefix and what follows it. -/
theorem splitAt?_byteLength_append (as bs : List Char) :
    splitAt? (byteLength as) (as ++ bs) = some (as, bs) := by
  induction as with
  | nil => exact splitAt?_zero bs
  | cons a as ih =>
    have hpos := a.utf8Size_pos
    obtain ⟨n, hn⟩ : ∃ n, a.utf8Size + byteLength as = n + 1 :=
      ⟨a.utf8Size + byteLength as - 1, by omega⟩
    have hrest : n + 1 - a.utf8Size = byteLength as := by omega
    simp only [byteLength_cons, List.cons_append, hn, splitAt?, hrest, ih]
    rw [if_pos (by omega)]
    rfl

/-- A cut succeeds exactly at the length of a prefix, and gives that prefix and the rest. -/
theorem splitAt?_eq_some_iff {n : Nat} {cs as bs : List Char} :
    splitAt? n cs = some (as, bs) ↔ cs = as ++ bs ∧ byteLength as = n := by
  constructor
  · intro h
    induction cs generalizing n as bs with
    | nil =>
      cases n with
      | zero => simp only [splitAt?, Option.some.injEq, Prod.mk.injEq] at h; simp [← h.1, ← h.2]
      | succ n => simp [splitAt?] at h
    | cons c cs ih =>
      cases n with
      | zero => simp only [splitAt?, Option.some.injEq, Prod.mk.injEq] at h; simp [← h.1, ← h.2]
      | succ n =>
        simp only [splitAt?] at h
        split at h
        next hle =>
          obtain ⟨⟨before, after⟩, hsplit, heq⟩ := Option.map_eq_some_iff.1 h
          simp only [Prod.mk.injEq] at heq
          obtain ⟨hcs, hlen⟩ := ih hsplit
          subst hcs
          obtain ⟨rfl, rfl⟩ := heq
          exact ⟨rfl, by simp only [byteLength_cons]; omega⟩
        next => simp at h
  · rintro ⟨rfl, rfl⟩
    exact splitAt?_byteLength_append as bs

/-- The characters between two byte offsets, if they are in order and both are usable. -/
def slice? (cs : List Char) (start stop : Nat) : Option (List Char) :=
  if start ≤ stop then do
    let (_, rest) ← splitAt? start cs
    let (piece, _) ← splitAt? (stop - start) rest
    return piece
  else none

/-- The characters between two byte offsets, none where the offsets are not usable. -/
def slice (cs : List Char) (start stop : Nat) : List Char :=
  (slice? cs start stop).getD []

/-- Puts a text in the place of the characters between two byte offsets. -/
def splice? (cs : List Char) (start stop : Nat) (replacement : List Char) : Option (List Char) :=
  if start ≤ stop then do
    let (before, rest) ← splitAt? start cs
    let (_, after) ← splitAt? (stop - start) rest
    return before ++ replacement ++ after
  else none

end CallFill.Text
