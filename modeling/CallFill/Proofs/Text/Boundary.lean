import CallFill.Text.Bytes

/-!
# Boundaries of characters

A byte offset is a boundary of a text if a character starts or the text ends there. Between two
boundaries in order lies one piece of the text (`Holds`); pieces that touch make one piece, and what
`slice?` reads and `splice?` replaces is the piece between two offsets.
-/

namespace CallFill.Text

/-- A character starts or the text ends at the byte offset. -/
def IsBoundary (cs : List Char) (n : Nat) : Prop :=
  ∃ before after, cs = before ++ after ∧ byteLength before = n

/-- The text holds a piece between two byte offsets. -/
def Holds (cs : List Char) (start stop : Nat) (piece : List Char) : Prop :=
  ∃ before after, cs = before ++ (piece ++ after) ∧ byteLength before = start ∧
    start + byteLength piece = stop

variable {cs piece other : List Char} {a b c n : Nat}

theorem byteLength_eq_zero {as : List Char} (h : byteLength as = 0) : as = [] := by
  cases as with
  | nil => rfl
  | cons d as =>
      have hpos := d.utf8Size_pos
      rw [byteLength_cons] at h
      omega

/-- Every character has a byte. -/
theorem byteLength_pos {as : List Char} (h : as ≠ []) : 0 < byteLength as := by
  rcases Nat.eq_zero_or_pos (byteLength as) with hzero | hpos
  · exact absurd (byteLength_eq_zero hzero) h
  · exact hpos

/-- A text has at least as many bytes as characters. -/
theorem length_le_byteLength (as : List Char) : as.length ≤ byteLength as := by
  induction as with
  | nil => exact Nat.le_refl 0
  | cons d as ih =>
      have hpos := d.utf8Size_pos
      rw [List.length_cons, byteLength_cons]
      omega

/-- Two ways to cut a text at one byte offset are the same. -/
theorem append_inj_of_byteLength {as bs as' bs' : List Char} (h : as ++ bs = as' ++ bs')
    (hlen : byteLength as = byteLength as') : as = as' ∧ bs = bs' := by
  have h1 := splitAt?_byteLength_append as bs
  have h2 := splitAt?_byteLength_append as' bs'
  rw [h, hlen, h2] at h1
  have heq := Option.some.inj h1
  exact ⟨(congrArg Prod.fst heq).symm, (congrArg Prod.snd heq).symm⟩

/-- Of two ways to cut a text, the one that cuts later takes up the piece between them as well. -/
theorem append_of_byteLength_le {as bs as' bs' : List Char} (h : as ++ bs = as' ++ bs')
    (hle : byteLength as ≤ byteLength as') : ∃ mid, as' = as ++ mid ∧ bs = mid ++ bs' := by
  rcases List.append_eq_append_iff.1 h with ⟨mid, has', hbs⟩ | ⟨mid, has, hbs'⟩
  · exact ⟨mid, has', hbs⟩
  · have hnil : mid = [] := by
      refine byteLength_eq_zero ?_
      rw [has, byteLength_append] at hle
      omega
    subst hnil
    rw [List.append_nil] at has
    exact ⟨[], by rw [List.append_nil, has], hbs'.symm⟩

/-- A text may be cut at its start. -/
theorem isBoundary_zero (cs : List Char) : IsBoundary cs 0 :=
  ⟨[], cs, rfl, rfl⟩

theorem isBoundary_byteLength (cs : List Char) : IsBoundary cs (byteLength cs) :=
  ⟨cs, [], (List.append_nil cs).symm, rfl⟩

/-- No character starts behind the end. -/
theorem IsBoundary.le (h : IsBoundary cs n) : n ≤ byteLength cs := by
  obtain ⟨before, after, rfl, rfl⟩ := h
  rw [byteLength_append]
  exact Nat.le_add_right _ _

/-- A piece starts between characters. -/
theorem Holds.isBoundary_start (h : Holds cs a b piece) : IsBoundary cs a := by
  obtain ⟨before, after, hcs, hstart, _⟩ := h
  exact ⟨before, piece ++ after, hcs, hstart⟩

theorem Holds.isBoundary_stop (h : Holds cs a b piece) : IsBoundary cs b := by
  obtain ⟨before, after, hcs, hstart, hstop⟩ := h
  refine ⟨before ++ piece, after, ?_, ?_⟩
  · rw [hcs, List.append_assoc]
  · rw [byteLength_append, hstart]
    exact hstop

theorem Holds.le (h : Holds cs a b piece) : a ≤ b := by
  obtain ⟨_, _, _, _, hstop⟩ := h
  omega

/-- Between two offsets a text has one piece. -/
theorem Holds.unique (h : Holds cs a b piece) (h' : Holds cs a b other) : piece = other := by
  obtain ⟨before, after, hcs, hstart, hstop⟩ := h
  obtain ⟨before', after', hcs', hstart', hstop'⟩ := h'
  have hrest := (append_inj_of_byteLength (hcs.symm.trans hcs') (hstart.trans hstart'.symm)).2
  exact (append_inj_of_byteLength hrest (by omega)).1

theorem holds_nil (h : IsBoundary cs a) : Holds cs a a [] := by
  obtain ⟨before, after, hcs, hstart⟩ := h
  exact ⟨before, after, hcs, hstart, rfl⟩

/-- Pieces that touch make one piece. -/
theorem Holds.append (h : Holds cs a b piece) (h' : Holds cs b c other) :
    Holds cs a c (piece ++ other) := by
  obtain ⟨before, after, hcs, hstart, hstop⟩ := h
  obtain ⟨before', after', hcs', hstart', hstop'⟩ := h'
  have hcut : (before ++ piece) ++ after = before' ++ (other ++ after') := by
    rw [List.append_assoc, ← hcs, hcs']
  have hlen : byteLength (before ++ piece) = byteLength before' := by
    rw [byteLength_append]
    omega
  have hrest := (append_inj_of_byteLength hcut hlen).2
  refine ⟨before, after', ?_, hstart, ?_⟩
  · rw [hcs, hrest, List.append_assoc]
  · rw [byteLength_append]
    omega

/-- Between two boundaries in order lies a piece of the text. -/
theorem exists_holds (ha : IsBoundary cs a) (hb : IsBoundary cs b) (hab : a ≤ b) :
    ∃ piece, Holds cs a b piece := by
  obtain ⟨before, after, hcs, hstart⟩ := ha
  obtain ⟨before', after', hcs', hstop⟩ := hb
  obtain ⟨mid, hmid, hrest⟩ := append_of_byteLength_le (hcs.symm.trans hcs') (by omega)
  refine ⟨mid, before, after', ?_, hstart, ?_⟩
  · rw [hcs, hrest]
  · rw [← hstop, hmid, byteLength_append, hstart]

/-- A piece is made of the pieces before and behind a boundary within it. -/
theorem Holds.split (h : Holds cs a c piece) (hb : IsBoundary cs b) (hab : a ≤ b) (hbc : b ≤ c) :
    ∃ before after, piece = before ++ after ∧ Holds cs a b before ∧ Holds cs b c after := by
  obtain ⟨before, hbefore⟩ := exists_holds h.isBoundary_start hb hab
  obtain ⟨after, hafter⟩ := exists_holds hb h.isBoundary_stop hbc
  exact ⟨before, after, h.unique (hbefore.append hafter), hbefore, hafter⟩

/-- What is cut out between two offsets is the piece there. -/
theorem slice?_eq_some_iff : slice? cs a b = some piece ↔ Holds cs a b piece := by
  constructor
  · intro h
    rw [slice?] at h
    by_cases hab : a ≤ b
    · rw [if_pos hab] at h
      obtain ⟨⟨before, rest⟩, hfirst, h⟩ := Option.bind_eq_some_iff.1 h
      obtain ⟨⟨found, after⟩, hsecond, h⟩ := Option.bind_eq_some_iff.1 h
      obtain ⟨hcs, hstart⟩ := splitAt?_eq_some_iff.1 hfirst
      obtain ⟨hrest, hlen⟩ := splitAt?_eq_some_iff.1 hsecond
      have hfound : found = piece := Option.some.inj h
      subst hfound
      exact ⟨before, after, by rw [hcs, hrest], hstart, by omega⟩
    · rw [if_neg hab] at h
      exact absurd h (by simp)
  · rintro ⟨before, after, hcs, hstart, hstop⟩
    rw [slice?, if_pos (by omega), hcs, ← hstart, splitAt?_byteLength_append]
    have hlen : b - byteLength before = byteLength piece := by omega
    show (splitAt? (b - byteLength before) (piece ++ after)).bind _ = _
    rw [hlen, splitAt?_byteLength_append]
    rfl

theorem Holds.slice_eq (h : Holds cs a b piece) : slice cs a b = piece := by
  rw [slice, slice?_eq_some_iff.2 h]
  rfl

/-- Putting a text in the place of a piece keeps what stands before and after the piece. -/
theorem splice?_append (before middle after replacement : List Char) :
    splice? (before ++ (middle ++ after)) (byteLength before)
      (byteLength before + byteLength middle) replacement =
      some (before ++ replacement ++ after) := by
  rw [splice?, if_pos (Nat.le_add_right _ _), splitAt?_byteLength_append]
  show (splitAt? (byteLength before + byteLength middle - byteLength before)
    (middle ++ after)).bind _ = _
  rw [Nat.add_sub_cancel_left, splitAt?_byteLength_append]
  rfl

end CallFill.Text
