import CallFill.Proofs.Union.Signature
import Mathlib.Data.List.Basic

/-!
# Leaves and the nesting bound

The leaves of a type are what is reached from it through members of unions and is no union itself.
Flattening opens `maxNesting` levels of unions and no more, so it finds all leaves of the members
that nest within the bound (`mem_leaves_iff`), and of the leaves it finds it keeps the first of each
name (`exists_mem_flatten`).
-/

namespace CallFill

theorem TypeShape.members?_eq_some_iff {s : TypeShape} {members : List TypeId} :
    s.members? = some members ↔ s = .union members := by
  cases s <;> simp [TypeShape.members?]

namespace Union

variable {h : Host} {t leaf : TypeId} {members : List TypeId} {n k : Nat}

/-! ## Leaves -/

/-- One type is a leaf of another: it is no union, and it is the type itself or a leaf of one of its
members. -/
inductive IsLeafOf (h : Host) (leaf : TypeId) : TypeId → Prop
  | self (hleaf : (h.shape leaf).isUnion = false) : IsLeafOf h leaf leaf
  | member {t m : TypeId} {members : List TypeId} (ht : h.shape t = .union members)
      (hm : m ∈ members) (hleaf : IsLeafOf h leaf m) : IsLeafOf h leaf t

/-- No leaf is a union. -/
theorem IsLeafOf.isUnion (hleaf : IsLeafOf h leaf t) : (h.shape leaf).isUnion = false := by
  induction hleaf with
  | self hleaf => exact hleaf
  | member _ _ _ ih => exact ih

/-- A type that is no union is its own leaf. -/
theorem isLeafOf_iff_eq (ht : (h.shape t).isUnion = false) : IsLeafOf h leaf t ↔ leaf = t := by
  constructor
  · intro hleaf
    cases hleaf with
    | self => rfl
    | member hunion =>
        rw [hunion] at ht
        exact nomatch ht
  · rintro rfl
    exact .self ht

/-- The leaves of a union are those of its members. -/
theorem isLeafOf_union_iff (ht : h.shape t = .union members) :
    IsLeafOf h leaf t ↔ ∃ m ∈ members, IsLeafOf h leaf m := by
  constructor
  · intro hleaf
    cases hleaf with
    | self hself =>
        rw [ht] at hself
        exact nomatch hself
    | member hunion hm hleaf =>
        rw [ht] at hunion
        cases hunion
        exact ⟨_, hm, hleaf⟩
  · rintro ⟨m, hm, hleaf⟩
    exact .member ht hm hleaf

/-! ## Nesting -/

/-- At most so many unions lie inside one another in a type. -/
def NestsWithin (h : Host) : Nat → TypeId → Prop
  | 0, t => (h.shape t).isUnion = false
  | n + 1, t => ∀ members, h.shape t = .union members → ∀ m ∈ members, NestsWithin h n m

/-- Nesting is decided by looking at the members. -/
instance decidableNestsWithin (h : Host) : ∀ n t, Decidable (NestsWithin h n t)
  | 0, t => inferInstanceAs (Decidable ((h.shape t).isUnion = false))
  | n + 1, t =>
    have := decidableNestsWithin h n
    decidable_of_iff (∀ members ∈ (h.shape t).members?, ∀ m ∈ members, NestsWithin h n m) <| by
      simp only [NestsWithin, TypeShape.members?_eq_some_iff, Option.mem_def]

/-- A type that is no union nests within any bound. -/
theorem nestsWithin_of_not_isUnion (ht : (h.shape t).isUnion = false) (n : Nat) :
    NestsWithin h n t := by
  cases n with
  | zero => exact ht
  | succ n =>
      intro members hunion
      rw [hunion] at ht
      exact nomatch ht

theorem NestsWithin.mono (ht : NestsWithin h n t) (hle : n ≤ k) : NestsWithin h k t := by
  induction n generalizing t k with
  | zero => exact nestsWithin_of_not_isUnion ht k
  | succ n ih =>
      obtain ⟨k, rfl⟩ : ∃ j, k = j + 1 := ⟨k - 1, by omega⟩
      intro members hunion m hm
      exact ih (ht members hunion m hm) (Nat.le_of_succ_le_succ hle)

/-- The leaves that are looked for in a union are those of its members, one level down. -/
theorem leaves_of_union (ht : h.shape t = .union members) (n : Nat) :
    leaves h (n + 1) t = members.flatMap (leaves h n) := by
  rw [leaves, ht]
  rfl

/-- What nests within a bound has the same leaves under every greater one. -/
theorem leaves_eq_of_le (ht : NestsWithin h n t) (hle : n ≤ k) : leaves h k t = leaves h n t := by
  induction n generalizing t k with
  | zero => rw [leaves_of_not_isUnion ht, leaves_of_not_isUnion ht]
  | succ n ih =>
      obtain ⟨k, rfl⟩ : ∃ j, k = j + 1 := ⟨k - 1, by omega⟩
      -- a type that is no union is its own leaf at every depth, so only unions use up the bound
      cases hshape : (h.shape t).members? with
      | none =>
          have hflat : (h.shape t).isUnion = false := by rw [TypeShape.isUnion, hshape]; rfl
          rw [leaves_of_not_isUnion hflat, leaves_of_not_isUnion hflat]
      | some members =>
          have hunion := TypeShape.members?_eq_some_iff.1 hshape
          rw [leaves_of_union hunion, leaves_of_union hunion]
          exact List.flatMap_congr fun m hm =>
            ih (ht members hunion m hm) (Nat.le_of_succ_le_succ hle)

/-- The leaves found in a type that nests within the bound are all its leaves. -/
theorem mem_leaves_iff (ht : NestsWithin h n t) : leaf ∈ leaves h n t ↔ IsLeafOf h leaf t := by
  induction n generalizing t with
  | zero => rw [leaves_of_not_isUnion ht, List.mem_singleton, isLeafOf_iff_eq ht]
  | succ n ih =>
      cases hshape : (h.shape t).members? with
      | none =>
          have hflat : (h.shape t).isUnion = false := by rw [TypeShape.isUnion, hshape]; rfl
          rw [leaves_of_not_isUnion hflat, List.mem_singleton, isLeafOf_iff_eq hflat]
      | some members =>
          have hunion := TypeShape.members?_eq_some_iff.1 hshape
          rw [leaves_of_union hunion, List.mem_flatMap, isLeafOf_union_iff hunion]
          exact exists_congr fun m => and_congr_right fun hm => ih (ht members hunion m hm)

/-! ## Flattening -/

/-- The members of a union; a type that is no union is its only member. -/
def membersOf (h : Host) (t : TypeId) : List TypeId :=
  (h.shape t).members?.getD [t]

/-- Flattening a type keeps of its leaves the first of each name. -/
theorem flatten_membersOf (h : Host) (t : TypeId) :
    flatten h (membersOf h t) = dedupBy h.displayName (leaves h (maxNesting + 1) t) := by
  rw [flatten, membersOf, leaves]
  cases hmembers : (h.shape t).members? with
  | some members => rfl
  | none =>
      have hflat : (h.shape t).isUnion = false := by rw [TypeShape.isUnion, hmembers]; rfl
      rw [Option.getD_none, List.flatMap_singleton, leaves_of_not_isUnion hflat]

/-- Of the leaves with one name, flattening keeps one. -/
theorem exists_mem_flatten (hleaf : leaf ∈ members.flatMap (leaves h maxNesting)) :
    ∃ t ∈ flatten h members, h.displayName t = h.displayName leaf :=
  exists_mem_dedupBy hleaf

/-- Flattening finds only leaves of the members. -/
theorem mem_leaves_of_mem_flatten (ht : t ∈ flatten h members) :
    t ∈ members.flatMap (leaves h maxNesting) :=
  mem_of_mem_dedupBy ht

end Union

end CallFill
