import CallFill.Source.SyntaxTree

/-!
# How trees lie in the text

The parts of a tree cover stretches of the text inside the stretch of the tree, one after the other
(`InOrder`). A tree that covers nothing says nothing about its place but that no earlier part
reaches beyond it: where only line ends were read, the tree stands at the end of the last token
before them, and that may be before its parent begins.

What is said of every part of a tree (`IsPart`) is said of the tree and of every part of its
children.
-/

namespace CallFill.Source.SyntaxTree

/-- One tree is another, or is inside of it. -/
inductive IsPart : SyntaxTree → SyntaxTree → Prop where
  | self (t : SyntaxTree) : IsPart t t
  | inside {u c t : SyntaxTree} (hc : c ∈ t.children) (h : IsPart u c) : IsPart u t

/-- Trees follow each other from an offset on, within two bounds; the lower one is for trees that
cover something. -/
def InOrder (lo hi : Nat) : Nat → List SyntaxTree → Prop
  | pos, [] => pos ≤ hi
  | pos, t :: ts =>
    pos ≤ t.start ∧ (t.start < t.stop → lo ≤ t.start) ∧ t.start ≤ t.stop ∧ InOrder lo hi t.stop ts

/-- A tree starts and ends where it may, and its children are in order inside of it. -/
structure Placed (edge : Nat → Prop) (t : SyntaxTree) : Prop where
  start_edge : edge t.start
  stop_edge : edge t.stop
  start_le_stop : t.start ≤ t.stop
  ordered : ∃ pos ≤ t.start, InOrder t.start t.stop pos t.children

/-- Something holds of a tree and of all trees inside of it. -/
def AllParts (P : SyntaxTree → Prop) (t : SyntaxTree) : Prop :=
  ∀ u, IsPart u t → P u

variable {P Q : SyntaxTree → Prop} {lo hi hi' pos pos' : Nat} {t u c : SyntaxTree}
  {ts us : List SyntaxTree}

/-! ## Parts -/

theorem sizeOf_lt_of_child (hc : c ∈ t.children) : sizeOf c < sizeOf t := by
  cases t with
  | node kind role start stop children =>
      have hlt : sizeOf c < sizeOf children := List.sizeOf_lt_of_mem hc
      rw [node.sizeOf_spec]
      omega

/-- Induction from the children to the tree. -/
theorem childInduction {motive : SyntaxTree → Prop}
    (step : ∀ t, (∀ c ∈ t.children, motive c) → motive t) (t : SyntaxTree) : motive t :=
  step t fun c _ => childInduction step c
termination_by t
decreasing_by
  next hc => exact sizeOf_lt_of_child hc

theorem IsPart.trans {v : SyntaxTree} (hu : IsPart u v) (hv : IsPart v t) : IsPart u t := by
  induction hv with
  | self => exact hu
  | inside hc hv ih => exact IsPart.inside hc ih

theorem AllParts.self (h : AllParts P t) : P t :=
  h t (IsPart.self t)

theorem AllParts.child (h : AllParts P t) (hc : c ∈ t.children) : AllParts P c :=
  fun u hu => h u (IsPart.inside hc hu)

/-- What holds of a tree and of all parts of its children holds of all its parts. -/
theorem AllParts.of_children (ht : P t) (hchildren : ∀ c ∈ t.children, AllParts P c) :
    AllParts P t := by
  intro u hu
  cases hu with
  | self => exact ht
  | inside hc hu => exact hchildren _ hc u hu

theorem AllParts.imp (h : AllParts P t) (hPQ : ∀ u, P u → Q u) : AllParts Q t :=
  fun u hu => hPQ u (h u hu)

@[simp] theorem kind_withRole (r : Role) (t : SyntaxTree) : (t.withRole r).kind = t.kind := by
  cases t
  rfl

@[simp] theorem role_withRole (r : Role) (t : SyntaxTree) : (t.withRole r).role = some r := by
  cases t
  rfl

@[simp] theorem start_withRole (r : Role) (t : SyntaxTree) : (t.withRole r).start = t.start := by
  cases t
  rfl

@[simp] theorem stop_withRole (r : Role) (t : SyntaxTree) : (t.withRole r).stop = t.stop := by
  cases t
  rfl

@[simp] theorem children_withRole (r : Role) (t : SyntaxTree) :
    (t.withRole r).children = t.children := by
  cases t
  rfl

/-- Giving a tree a role changes no other part of it. -/
theorem AllParts.withRole (h : AllParts P t) (r : Role) (hP : P t → P (t.withRole r)) :
    AllParts P (t.withRole r) := by
  refine AllParts.of_children (hP h.self) ?_
  intro c hc
  rw [children_withRole] at hc
  exact h.child hc

/-- Where a tree lies does not depend on its role. -/
theorem Placed.withRole {edge : Nat → Prop} (h : Placed edge t) (r : Role) :
    Placed edge (t.withRole r) := by
  refine ⟨?_, ?_, ?_, ?_⟩
  · rw [start_withRole]
    exact h.start_edge
  · rw [stop_withRole]
    exact h.stop_edge
  · rw [start_withRole, stop_withRole]
    exact h.start_le_stop
  · rw [start_withRole, stop_withRole, children_withRole]
    exact h.ordered

/-- A child in the role is found if there is one. -/
theorem child?_isSome {part : Role} (h : ∃ c ∈ t.children, c.role = some part) :
    (t.child? part).isSome = true := by
  obtain ⟨c, hc, hrole⟩ := h
  rw [child?, List.find?_isSome]
  exact ⟨c, hc, decide_eq_true hrole⟩

/-- A child that is found has the role. -/
theorem mem_of_child? {part : Role} (h : t.child? part = some c) :
    c ∈ t.children ∧ c.role = some part := by
  have hrole := List.find?_some h
  exact ⟨List.mem_of_find?_eq_some h, of_decide_eq_true hrole⟩

/-! ## Trees in order -/

/-- Trees in order from an offset on are so from an earlier one on. -/
theorem InOrder.weaken (h : InOrder lo hi pos ts) (hpos : pos' ≤ pos) : InOrder lo hi pos' ts := by
  cases ts with
  | nil => exact Nat.le_trans hpos h
  | cons t ts =>
      obtain ⟨hstart, hrest⟩ := h
      exact ⟨Nat.le_trans hpos hstart, hrest⟩

theorem InOrder.pos_le (h : InOrder lo hi pos ts) : pos ≤ hi := by
  induction ts generalizing pos with
  | nil => exact h
  | cons t ts ih =>
      obtain ⟨hstart, _, hle, hrest⟩ := h
      have hstop := ih hrest
      omega

theorem InOrder.le_hi (h : InOrder lo hi pos ts) (hhi : hi ≤ hi') : InOrder lo hi' pos ts := by
  induction ts generalizing pos with
  | nil => exact Nat.le_trans h hhi
  | cons t ts ih =>
      obtain ⟨hstart, hlo, hle, hrest⟩ := h
      exact ⟨hstart, hlo, hle, ih hrest⟩

/-- One tree is in order between the bounds it keeps. -/
theorem InOrder.singleton (hpos : pos ≤ t.start) (hlo : t.start < t.stop → lo ≤ t.start)
    (hle : t.start ≤ t.stop) (hhi : t.stop ≤ hi) : InOrder lo hi pos [t] :=
  ⟨hpos, hlo, hle, hhi⟩

/-- Trees up to a point, and then trees from this point on. -/
theorem InOrder.append {mid : Nat} (hts : InOrder lo mid pos ts) (hus : InOrder lo hi mid us) :
    InOrder lo hi pos (ts ++ us) := by
  induction ts generalizing pos with
  | nil => exact hus.weaken hts
  | cons t ts ih =>
      obtain ⟨hstart, hlo, hle, hrest⟩ := hts
      exact ⟨hstart, hlo, hle, ih hrest⟩

/-- Trees keep their order in another role. -/
theorem InOrder.map_withRole (r : Role) (h : InOrder lo hi pos ts) :
    InOrder lo hi pos (ts.map (SyntaxTree.withRole r)) := by
  induction ts generalizing pos with
  | nil => exact h
  | cons t ts ih =>
      obtain ⟨hstart, hlo, hle, hrest⟩ := h
      refine ⟨?_, ?_, ?_, ?_⟩
      · rw [start_withRole]
        exact hstart
      · rw [start_withRole, stop_withRole]
        exact hlo
      · rw [start_withRole, stop_withRole]
        exact hle
      · rw [stop_withRole]
        exact ih hrest

/-- A tree among trees in order lies within their bounds, if it covers something. -/
theorem InOrder.bounds (h : InOrder lo hi pos ts) (ht : t ∈ ts) :
    pos ≤ t.start ∧ (t.start < t.stop → lo ≤ t.start) ∧ t.start ≤ t.stop ∧ t.stop ≤ hi := by
  induction ts generalizing pos with
  | nil => exact absurd ht List.not_mem_nil
  | cons u ts ih =>
      obtain ⟨hstart, hlo, hle, hrest⟩ := h
      rcases List.mem_cons.1 ht with rfl | ht
      · exact ⟨hstart, hlo, hle, hrest.pos_le⟩
      · obtain ⟨hpos, hbounds⟩ := ih hrest ht
        exact ⟨by omega, hbounds⟩

/-- Of two trees in order one ends before the other starts. -/
theorem InOrder.pairwise (h : InOrder lo hi pos ts) : ts.Pairwise fun a b => a.stop ≤ b.start := by
  induction ts generalizing pos with
  | nil => exact List.Pairwise.nil
  | cons t ts ih =>
      obtain ⟨_, _, _, hrest⟩ := h
      exact List.pairwise_cons.2 ⟨fun u hu => (hrest.bounds hu).1, ih hrest⟩

/-- Two trees in order are one, or one of them is behind the other. -/
theorem InOrder.apart {a b : SyntaxTree}
    (h : InOrder lo hi pos ts) (ha : a ∈ ts) (hb : b ∈ ts) :
    a = b ∨ a.stop ≤ b.start ∨ b.stop ≤ a.start :=
  List.Pairwise.forall_of_forall_of_flip
    (R := fun a b : SyntaxTree => a = b ∨ a.stop ≤ b.start ∨ b.stop ≤ a.start)
    (fun _ _ => Or.inl rfl) (h.pairwise.imp fun hab => Or.inr (Or.inl hab))
    (h.pairwise.imp fun hab => Or.inr (Or.inr hab)) ha hb

/-- No tree in order reaches beyond the last one. -/
theorem InOrder.stop_le_getLast {last : SyntaxTree} (h : InOrder lo hi pos ts)
    (hlast : ts.getLast? = some last) (hc : c ∈ ts) : c.stop ≤ last.stop := by
  obtain ⟨front, rfl⟩ := List.getLast?_eq_some_iff.1 hlast
  rcases List.mem_append.1 hc with hfront | hc
  · have hmem : last ∈ front ++ [last] := List.mem_append_right _ (List.mem_singleton_self last)
    have hapart := (List.pairwise_append.1 h.pairwise).2.2 c hfront last
      (List.mem_singleton_self last)
    have hle := (h.bounds hmem).2.2.1
    omega
  · exact Nat.le_of_eq (congrArg stop (List.mem_singleton.1 hc))

/-- A part that covers something lies inside of the tree. -/
theorem IsPart.within {edge : Nat → Prop} (hu : IsPart u t) (ht : AllParts (Placed edge) t)
    (hcovers : u.start < u.stop) : t.start ≤ u.start ∧ u.stop ≤ t.stop := by
  induction hu with
  | self => exact ⟨Nat.le_refl _, Nat.le_refl _⟩
  | @inside c t hc hu ih =>
      obtain ⟨hstart, hstop⟩ := ih (ht.child hc)
      obtain ⟨pos, _, hordered⟩ := ht.self.ordered
      obtain ⟨_, hlo, _, hhi⟩ := hordered.bounds hc
      have hle := hlo (by omega)
      omega

/-- **Parts nest.** Of two parts that cover something, one is a part of the other, or one ends
before the other starts. -/
theorem AllParts.nested_or_apart {edge : Nat → Prop} {v : SyntaxTree}
    (ht : AllParts (Placed edge) t) (hu : IsPart u t) (hv : IsPart v t)
    (hucovers : u.start < u.stop) (hvcovers : v.start < v.stop) :
    IsPart u v ∨ IsPart v u ∨ u.stop ≤ v.start ∨ v.stop ≤ u.start := by
  induction hu with
  | self => exact .inr (.inl hv)
  | @inside c t hc hu ih =>
      cases hv with
      | self => exact .inl (.inside hc hu)
      | @inside d _ hd hv =>
          -- both lie within children of the tree, which follow each other
          obtain ⟨pos, -, hordered⟩ := ht.self.ordered
          have huc := hu.within (ht.child hc) hucovers
          have hvd := hv.within (ht.child hd) hvcovers
          rcases hordered.apart hc hd with rfl | hbefore | hbefore
          · exact ih (ht.child hc) hv
          · exact .inr (.inr (.inl (by omega)))
          · exact .inr (.inr (.inr (by omega)))

end CallFill.Source.SyntaxTree
