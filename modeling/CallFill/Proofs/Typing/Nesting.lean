import CallFill.ProjectHost
import CallFill.Proofs.Typing.Annotations
import CallFill.Proofs.Union.Leaves

/-!
# How deep unions nest

Every union takes a level of typing, whether it is spelled with `|`, `Union` or `Optional`, quoted
or behind an alias, and an annotation has `depthBound` levels. So no more than `depthBound` unions
lie inside one another in any type of a project (`Project.nestsWithin_host`). Flattening opens a
union and `Union.maxNesting` levels below it, which is as many: no leaf of a union in a project is
ever cut off (`Project.flatten_keeps_leaves`).
-/

namespace CallFill

open Codebase

/-! ## Nesting in a table -/

namespace TypeTable

variable {types types' : TypeTable} {id : TypeId} {n k : Nat}

/-- The type is in the table, and at most so many unions lie inside one another in it. -/
def NestsWithin (types : TypeTable) : Nat → TypeId → Prop
  | 0, id => id.index < types.nodes.length ∧ ∀ members, types.node id ≠ .union members
  | n + 1, id => id.index < types.nodes.length ∧
      ∀ members, types.node id = .union members → ∀ m ∈ members, types.NestsWithin n m

/-- What nests is one of the table. -/
theorem NestsWithin.index_lt (h : types.NestsWithin n id) : id.index < types.nodes.length := by
  cases n with
  | zero => exact h.1
  | succ n => exact h.1

theorem NestsWithin.mono (h : types.NestsWithin n id) (hle : n ≤ k) : types.NestsWithin k id := by
  induction n generalizing id k with
  | zero =>
      cases k with
      | zero => exact h
      | succ k => exact ⟨h.1, fun members hunion => absurd hunion (h.2 members)⟩
  | succ n ih =>
      obtain ⟨k, rfl⟩ : ∃ j, k = j + 1 := ⟨k - 1, by omega⟩
      exact ⟨h.1, fun members hunion m hm =>
        ih (h.2 members hunion m hm) (Nat.le_of_succ_le_succ hle)⟩

theorem NestsWithin.of_extends (h : types.NestsWithin n id) (hmore : types.nodes <+: types'.nodes) :
    types'.NestsWithin n id := by
  have hnode := node_of_extends hmore h.index_lt
  have hlt : id.index < types'.nodes.length := Nat.lt_of_lt_of_le h.index_lt hmore.length_le
  induction n generalizing id with
  | zero =>
      refine ⟨hlt, fun members => ?_⟩
      rw [hnode]
      exact h.2 members
  | succ n ih =>
      refine ⟨hlt, fun members hunion m hm => ?_⟩
      rw [hnode] at hunion
      have hm' := h.2 members hunion m hm
      exact ih hm' (node_of_extends hmore hm'.index_lt)
        (Nat.lt_of_lt_of_le hm'.index_lt hmore.length_le)

/-- A type with this node would nest within the bound. -/
def NodeNests (types : TypeTable) (n : Nat) (node : TypeNode) : Prop :=
  ∀ members, node = .union members → ∃ k, n = k + 1 ∧ ∀ m ∈ members, types.NestsWithin k m

/-- A node nests one level deeper than its parts. -/
theorem nodeNests_of_parts {node : TypeNode} (h : ∀ m ∈ node.parts, types.NestsWithin n m) :
    types.NodeNests (n + 1) node := by
  rintro members rfl
  exact ⟨n, rfl, h⟩

/-- A type nests as its node does. -/
theorem NodeNests.nestsWithin {node : TypeNode} (h : types.NodeNests n node)
    (hmore : types.nodes <+: types'.nodes) (hlt : id.index < types'.nodes.length)
    (hnode : types'.node id = node) : types'.NestsWithin n id := by
  cases n with
  | zero =>
      refine ⟨hlt, fun members hunion => ?_⟩
      obtain ⟨k, hk, -⟩ := h members (hnode.symm.trans hunion)
      exact nomatch hk
  | succ n =>
      refine ⟨hlt, fun members hunion m hm => ?_⟩
      obtain ⟨k, hk, hmembers⟩ := h members (hnode.symm.trans hunion)
      obtain rfl := Nat.succ.inj hk
      exact (hmembers m hm).of_extends hmore

/-- No more than `depthBound` unions lie inside one another in any type of the table. -/
def Shallow (types : TypeTable) : Prop :=
  ∀ id : TypeId, id.index < types.nodes.length → types.NestsWithin depthBound id

/-- Entering a node that nests within a bound. -/
theorem Shallow.intern {node : TypeNode} (h : types.Shallow) (hnode : types.NodeNests n node)
    (hle : n ≤ depthBound) :
    (types.intern node).2.Shallow ∧ (types.intern node).2.NestsWithin n (types.intern node).1 := by
  have hmore := types.prefix_intern node
  refine ⟨fun id hid => ?_, ?_⟩
  · rcases cases_intern hid with hold | hnew
    · exact (h id hold).of_extends hmore
    · exact (hnode.nestsWithin hmore hid hnew).mono hle
  · exact hnode.nestsWithin hmore (types.index_intern_lt node) (types.node_intern node)

end TypeTable

/-! ## Nesting and levels -/

namespace Codebase

variable {n : Nat}

/-- The step keeps the table shallow, and the type it gives nests within the bound. -/
abbrev EnsuresNesting (n : Nat) (step : StateM Tables TypeId) : Prop :=
  Ensures (fun t => t.types.Shallow) (fun t id => t.types.NestsWithin n id) step

/-- Following a plan nests one level deeper than its parts. -/
theorem ensuresNesting_run {inner : FileId → TypeExpr → StateM Tables TypeId}
    (hle : n + 1 ≤ depthBound) (h : ∀ file e, EnsuresNesting n (inner file e)) (plan : TypePlan) :
    EnsuresNesting (n + 1) (plan.run inner) := by
  refine ensures_run (P := fun t id => t.types.NestsWithin n id)
    (fun id s t hwithin hid => hid.of_extends hwithin.types)
    (fun t id hid => hid.mono (Nat.le_succ n)) ?_ ?_ ?_ h plan
  · exact fun node t ht hparts => ht.intern (TypeTable.nodeNests_of_parts hparts) hle
  · exact fun t ht => ⟨Tables.within_enter .noneType t,
      ht.intern (fun members hunion => nomatch hunion) (Nat.le_of_succ_le hle)⟩
  · intro qualifiedName module kind node hatom t ht
    refine ⟨Tables.within_enterSymbol qualifiedName module kind node t, ht.intern ?_ hle⟩
    exact TypeTable.nodeNests_of_parts fun m hm => absurd hm (by simp [hatom])

/-- With so many levels, a type nests no deeper. -/
theorem ensuresNesting_typeWithin (b : Codebase) (hle : n ≤ depthBound) (file : FileId)
    (e : TypeExpr) : EnsuresNesting n (b.typeWithin n file e) := by
  induction n generalizing file e with
  | zero =>
      intro t ht
      refine ⟨Tables.within_enter .unknown t, ht.intern ?_ hle⟩
      exact fun members hunion => nomatch hunion
  | succ n ih =>
      rw [typeWithin_succ]
      exact ensuresNesting_run hle (ih (Nat.le_of_succ_le hle)) _

end Codebase

namespace Project

variable {b : Codebase} {t : TypeId} {members : List TypeId}

/-- The table of types of a project is shallow. -/
theorem shallow_ofCodebase (b : Codebase) : (ofCodebase b).types.Shallow := by
  refine (forall_annotations (I := fun t => t.types.Shallow) (Q := fun _ _ _ _ => True)
    (fun _ _ _ _ _ _ h => h) (fun file text => ?_) ?_).1
  · exact (b.ensuresNesting_typeWithin (Nat.le_refl _) file _).imp fun _ _ _ => trivial
  · exact fun id hid => absurd hid (Nat.not_lt_zero _)

/-- A type of a project is shaped as a union exactly if its node is one. -/
theorem shape_eq_union_iff {p : Project} :
    p.host.shape t = .union members ↔ p.types.node t = .union members := by
  show p.shape t = .union members ↔ _
  rw [shape]
  cases p.types.node t with
  | union members' =>
      constructor
      · intro h
        rw [TypeShape.union.inj h]
      · intro h
        rw [TypeNode.union.inj h]
  | projectClass symbol =>
      dsimp only
      rw [classShape]
      constructor
      · intro h
        split at h
        · exact nomatch h
        · split at h
          · exact nomatch h
          · split at h <;> exact nomatch h
      · intro h
        exact nomatch h
  | _ => exact ⟨(nomatch ·), (nomatch ·)⟩

/-- Types that nest in the table nest for the host. -/
theorem nestsWithin_host_of_table {p : Project} {n : Nat} (h : p.types.NestsWithin n t) :
    Union.NestsWithin p.host n t := by
  induction n generalizing t with
  | zero =>
      rw [Union.NestsWithin, TypeShape.isUnion]
      cases hmembers : (p.host.shape t).members? with
      | none => rfl
      | some members =>
          have hunion := shape_eq_union_iff.1 (TypeShape.members?_eq_some_iff.1 hmembers)
          exact absurd hunion (h.2 members)
  | succ n ih =>
      intro members hunion m hm
      exact ih (h.2 members (shape_eq_union_iff.1 hunion) m hm)

/-- In every type of a project, at most `depthBound` unions lie inside one another. -/
theorem nestsWithin_host (b : Codebase) (t : TypeId) :
    Union.NestsWithin (ofCodebase b).host depthBound t := by
  by_cases ht : t.index < (ofCodebase b).types.nodes.length
  · exact nestsWithin_host_of_table (shallow_ofCodebase b t ht)
  · have hnode := TypeTable.node_of_length_le (Nat.le_of_not_lt ht)
    refine Union.nestsWithin_of_not_isUnion ?_ _
    show ((ofCodebase b).shape t).isUnion = false
    rw [shape, hnode]
    rfl

/-- Of every union in a project, flattening finds all leaves, however deep they lie, and keeps one
of each name. -/
theorem flatten_keeps_leaves (b : Codebase) (ht : (ofCodebase b).host.shape t = .union members) :
    (∀ leaf, Union.IsLeafOf (ofCodebase b).host leaf t →
      leaf ∈ members.flatMap (Union.leaves (ofCodebase b).host Union.maxNesting) ∧
      ∃ m ∈ Union.flatten (ofCodebase b).host members,
        (ofCodebase b).host.displayName m = (ofCodebase b).host.displayName leaf) ∧
    (∀ m ∈ Union.flatten (ofCodebase b).host members, Union.IsLeafOf (ofCodebase b).host m t) ∧
    (Union.names (ofCodebase b).host members).Nodup := by
  have hleaves : ∀ leaf,
      leaf ∈ members.flatMap (Union.leaves (ofCodebase b).host Union.maxNesting) ↔
      Union.IsLeafOf (ofCodebase b).host leaf t := by
    intro leaf
    rw [← Union.leaves_of_union ht]
    exact Union.mem_leaves_iff (nestsWithin_host b t)
  refine ⟨fun leaf hleaf => ?_, fun m hm => ?_, Union.nodup_names _ _⟩
  · exact ⟨(hleaves leaf).2 hleaf, Union.exists_mem_flatten ((hleaves leaf).2 hleaf)⟩
  · exact (hleaves m).1 (Union.mem_leaves_of_mem_flatten hm)

/-- A union with unions inside it, written in several forms. -/
def nestedUnion : List (String × String) :=
  [("m.py", "def f(x: 'Union[int, Optional[Optional[str] | bytes]]'): pass\n")]

/-- The innermost leaf of a union is found through three others. -/
theorem nestedUnion_keeps_leaves :
    (ofSources .default nestedUnion).host.shape ⟨7⟩ = .union [⟨0⟩, ⟨6⟩] ∧
    Union.IsLeafOf (ofSources .default nestedUnion).host ⟨1⟩ ⟨7⟩ ∧
    ∃ m ∈ Union.flatten (ofSources .default nestedUnion).host [⟨0⟩, ⟨6⟩],
      (ofSources .default nestedUnion).host.displayName m = "str" := by
  obtain ⟨hunion, hleaf, hname⟩ :
      (ofSources .default nestedUnion).host.shape ⟨7⟩ = .union [⟨0⟩, ⟨6⟩] ∧
      ⟨1⟩ ∈ Union.leaves (ofSources .default nestedUnion).host depthBound ⟨7⟩ ∧
      (ofSources .default nestedUnion).host.displayName ⟨1⟩ = "str" := by decide +kernel
  have hleafOf := (Union.mem_leaves_iff (nestsWithin_host _ ⟨7⟩)).1 hleaf
  obtain ⟨-, m, hm, hsame⟩ := (flatten_keeps_leaves _ hunion).1 ⟨1⟩ hleafOf
  exact ⟨hunion, hleafOf, m, hm, hsame.trans hname⟩

end Project

end CallFill
