import CallFill.Proofs.Scope.Walk

/-!
# How the scopes of a module nest

An outline starts with the scope of the module, and a scope is entered from one that is there
already. So the scope of the module is the only one with nothing around it, and every other scope is
listed behind the one around it (`Outline.Nested`). Each step of a walk keeps this
(`Outline.Step.nested`), and the outline of a module has it (`Outline.nested_ofTree`).
-/

namespace CallFill.Outline

open Source

/-- The first scope is that of the module, and every other one lies in one listed before it. -/
structure Nested (o : Outline) : Prop where
  first : ∃ s, o.scopes[0]? = some s ∧ s.kind = .moduleBody ∧ s.parent = none
  later : ∀ (k : Nat) (s : ScopeDef), o.scopes[k + 1]? = some s →
    s.kind ≠ .moduleBody ∧ ∃ p, s.parent = some p ∧ p ≤ k

variable {source : List Char} {root : SyntaxTree} {w w' : WalkState} {o : Outline}

section First

variable {k : Nat} {s : ScopeDef}

theorem Nested.kind_eq_iff (h : o.Nested) (hs : o.scopes[k]? = some s) :
    s.kind = .moduleBody ↔ k = 0 := by
  cases k with
  | zero =>
      obtain ⟨s', hs', hkind, -⟩ := h.first
      obtain rfl := Option.some.inj (hs.symm.trans hs')
      exact iff_of_true hkind rfl
  | succ k => exact iff_of_false (h.later k s hs).1 (Nat.succ_ne_zero k)

theorem Nested.parent_eq_none_iff (h : o.Nested) (hs : o.scopes[k]? = some s) :
    s.parent = none ↔ k = 0 := by
  cases k with
  | zero =>
      obtain ⟨s', hs', -, hparent⟩ := h.first
      obtain rfl := Option.some.inj (hs.symm.trans hs')
      exact iff_of_true hparent rfl
  | succ k =>
      obtain ⟨-, p, hp, -⟩ := h.later k s hs
      exact iff_of_false (by simp [hp]) (Nat.succ_ne_zero k)

/-- A scope is listed behind the one around it. -/
theorem Nested.parent_lt (h : o.Nested) (hs : o.scopes[k]? = some s) {p : Nat}
    (hp : s.parent = some p) : p < k := by
  cases k with
  | zero =>
      rw [(h.parent_eq_none_iff hs).2 rfl] at hp
      cases hp
  | succ k =>
      obtain ⟨-, q, hq, hle⟩ := h.later k s hs
      obtain rfl := Option.some.inj (hq.symm.trans hp)
      exact Nat.lt_succ_of_le hle

end First

/-- What keeps the kind of a scope and the scope around it keeps the nesting. -/
theorem Nested.modify (h : o.Nested) (k : Nat) {f : ScopeDef → ScopeDef}
    (hf : ∀ s, (f s).kind = s.kind ∧ (f s).parent = s.parent) :
    Nested { o with scopes := o.scopes.modify k f } := by
  have hsame : ∀ (j : Nat) (s' : ScopeDef), (o.scopes.modify k f)[j]? = some s' →
      ∃ s, o.scopes[j]? = some s ∧ s'.kind = s.kind ∧ s'.parent = s.parent := by
    intro j s' hj
    rw [List.getElem?_modify] at hj
    obtain ⟨s, hs, rfl⟩ := Option.map_eq_some_iff.1 hj
    refine ⟨s, hs, ?_⟩
    split
    · exact hf s
    · exact ⟨rfl, rfl⟩
  constructor
  · obtain ⟨s, hs, hkind, hparent⟩ := h.first
    have hlt := (List.getElem?_eq_some_iff.1 hs).1
    have hlt' : 0 < (o.scopes.modify k f).length := by
      rw [List.length_modify]
      exact hlt
    obtain ⟨s', hs', hkind', hparent'⟩ := hsame 0 _ (List.getElem?_eq_getElem hlt')
    obtain rfl := Option.some.inj (hs.symm.trans hs')
    exact ⟨_, List.getElem?_eq_getElem hlt', hkind'.trans hkind, hparent'.trans hparent⟩
  · intro j s' hj
    obtain ⟨s, hs, hkind, hparent⟩ := hsame (j + 1) s' hj
    rw [hkind, hparent]
    exact h.later j s hs

theorem Nested.bind (h : o.Nested) (k : Nat) (name : String) : (o.bind k name).Nested :=
  h.modify k fun _ => ⟨rfl, rfl⟩

/-- A scope that is entered from one that is there lies behind it. -/
theorem Nested.enter (h : o.Nested) {kind : ScopeKind} (hkind : kind ≠ .moduleBody) {parent : Nat}
    (hparent : parent < o.scopes.length) : (o.enter kind parent).Nested := by
  constructor
  · obtain ⟨s, hs, hmodule⟩ := h.first
    exact ⟨s, getElem?_append_of_some hs, hmodule⟩
  · intro k s hs
    rw [Outline.enter] at hs
    by_cases hlt : k + 1 < o.scopes.length
    · rw [List.getElem?_append_left hlt] at hs
      exact h.later k s hs
    · obtain ⟨hle, -⟩ := List.getElem?_eq_some_iff.1 hs
      rw [List.length_append, List.length_singleton] at hle
      have hlast : k + 1 = o.scopes.length := by omega
      rw [hlast, List.getElem?_concat_length] at hs
      obtain rfl := Option.some.inj hs
      exact ⟨hkind, parent, rfl, by omega⟩

/-- Every step of a walk keeps the nesting. -/
theorem Step.nested (hstep : Step source root w w') (hw : Fits source root w.chains w.outline)
    (h : w.outline.Nested) : w'.outline.Nested := by
  have hlt : ∀ {here : Place} {blocks : List SyntaxTree}, LiesIn source w.chains here blocks →
      here.scope < w.outline.scopes.length := by
    intro here blocks hhere
    rw [← hw.length_eq]
    exact (List.getElem?_eq_some_iff.1 hhere.scope).1
  cases hstep with
  | bind _ _ _ => exact h.bind _ _
  | bindImport _ _ _ _ =>
      refine (h.bind _ _).modify _ fun s => ?_
      split
      · exact ⟨rfl, rfl⟩
      · exact ⟨rfl, rfl⟩
  | bindParameter _ _ => exact h.modify _ fun _ => ⟨rfl, rfl⟩
  | enterFunction _ hhere _ => exact h.enter (by simp) (hlt hhere)
  | enterClass _ hhere _ => exact h.enter (by simp) (hlt hhere)
  | recordCall _ _ _ =>
      rw [Outline.recordCall]
      split
      · exact ⟨h.first, h.later⟩
      · exact h

/-- The scopes of a module nest in that of the module. -/
theorem nested_ofTree (source : List Char) (hroot : root.kind = .module) :
    (ofTree source root).Nested := by
  obtain ⟨chains, hsteps⟩ := exists_steps_ofTree source hroot
  have hall : ∀ w, Steps source root ⟨{}, [[root]]⟩ w → w.outline.Nested := by
    intro w hsteps
    induction hsteps with
    | refl =>
        refine ⟨⟨_, rfl, rfl, rfl⟩, fun k s hs => ?_⟩
        cases hs
    | tail hbefore hlast ih =>
        exact hlast.nested (Steps.fits hbefore (fits_start source hroot)) ih
  exact hall _ hsteps

end CallFill.Outline
