import CallFill.Proofs.Source.WellFormed

/-!
# Joined line ends in a tree

A joined line end is put into the smallest part around it. Since no part starts or ends in its
middle, every part of the tree lies on one side of it, inside of it or around it, and so the parts
stay in order and well-formed. An argument list whose parentheses have a joined line end between
them and nothing else is not empty any more.
-/

namespace CallFill.Source.SyntaxTree

/-- A part is placed well and well-formed. -/
structure Sound (edge : Nat → Prop) (gap behind : Nat → Nat → Prop) (t : SyntaxTree) : Prop where
  placed : Placed edge t
  wellFormed : WellFormed edge gap behind t

variable {edge edge' : Nat → Prop} {gap gap' behind behind' : Nat → Nat → Prop} {s : Span}
  {t c : SyntaxTree} {ts : List SyntaxTree} {lo hi pos : Nat}

theorem start_insertJoint (s : Span) (t : SyntaxTree) : (t.insertJoint s).start = t.start := by
  cases t
  rw [insertJoint]
  rfl

theorem stop_insertJoint (s : Span) (t : SyntaxTree) : (t.insertJoint s).stop = t.stop := by
  cases t
  rw [insertJoint]
  rfl

theorem role_insertJoint (s : Span) (t : SyntaxTree) : (t.insertJoint s).role = t.role := by
  cases t
  rw [insertJoint]
  rfl

theorem kind_insertJoint (s : Span) (t : SyntaxTree) : (t.insertJoint s).kind = t.kind := by
  cases t
  rw [insertJoint]
  rfl

/-- A joined line end that no edge cuts. -/
structure Uncut (edge : Nat → Prop) (s : Span) : Prop where
  long : s.start + 2 ≤ s.stop
  start_edge : edge s.start
  stop_edge : edge s.stop
  apart : ∀ n, edge n → n ≤ s.start ∨ s.stop ≤ n

/-- A joint put among trees is there. -/
theorem insertJointAmong_ne_nil (s : Span) (ts : List SyntaxTree) :
    insertJointAmong s ts ≠ [] := by
  cases ts with
  | nil => exact List.cons_ne_nil _ _
  | cons t ts =>
      rw [insertJointAmong]
      split
      · exact List.cons_ne_nil _ _
      · split
        · exact List.cons_ne_nil _ _
        · exact List.cons_ne_nil _ _

/-- Where each tree stops before an offset, each of those from before did. -/
theorem forall_stop_le_of_insertJointAmong {n : Nat}
    (h : ∀ c ∈ insertJointAmong s ts, c.stop ≤ n) : ∀ c ∈ ts, c.stop ≤ n := by
  induction ts with
  | nil => exact fun c hc => absurd hc List.not_mem_nil
  | cons t ts ih =>
      rw [insertJointAmong] at h
      split at h
      · exact fun c hc => h c (List.mem_cons_of_mem _ hc)
      · split at h
        · intro c hc
          rcases List.mem_cons.1 hc with rfl | hc
          · rw [← stop_insertJoint s c]
            exact h _ List.mem_cons_self
          · exact h c (List.mem_cons_of_mem _ hc)
        · intro c hc
          rcases List.mem_cons.1 hc with rfl | hc
          · exact h c List.mem_cons_self
          · exact ih (fun d hd => h d (List.mem_cons_of_mem _ hd)) c hc

/-- A role that one of the trees has is still there. -/
theorem exists_role_insertJointAmong {part : Role} (h : ∃ c ∈ ts, c.role = some part) :
    ∃ c ∈ insertJointAmong s ts, c.role = some part := by
  induction ts with
  | nil =>
      obtain ⟨c, hc, _⟩ := h
      exact absurd hc List.not_mem_nil
  | cons t ts ih =>
      obtain ⟨c, hc, hrole⟩ := h
      rw [insertJointAmong]
      split
      · exact ⟨c, List.mem_cons_of_mem _ hc, hrole⟩
      · split
        · rcases List.mem_cons.1 hc with rfl | hc
          · exact ⟨c.insertJoint s, List.mem_cons_self, (role_insertJoint s c).trans hrole⟩
          · exact ⟨c, List.mem_cons_of_mem _ hc, hrole⟩
        · rcases List.mem_cons.1 hc with rfl | hc
          · exact ⟨c, List.mem_cons_self, hrole⟩
          · obtain ⟨d, hd, hdrole⟩ := ih ⟨c, hc, hrole⟩
            exact ⟨d, List.mem_cons_of_mem _ hd, hdrole⟩

/-- Trees in order stay so around a joined line end between their bounds. -/
theorem InOrder.insertJointAmong (hs : Uncut edge s) (h : InOrder lo hi pos ts)
    (hedges : ∀ t ∈ ts, edge t.start ∧ edge t.stop) (hpos : pos ≤ s.start) (hlo : lo ≤ s.start)
    (hhi : s.stop ≤ hi) : InOrder lo hi pos (insertJointAmong s ts) := by
  have hlong := hs.long
  have hjoint : (joint s).start ≤ (joint s).stop := by
    show s.start ≤ s.stop
    omega
  induction ts generalizing pos with
  | nil => exact ⟨hpos, fun _ => hlo, hjoint, hhi⟩
  | cons t ts ih =>
      obtain ⟨hstart, hcovers, hle, hrest⟩ := h
      obtain ⟨htstart, htstop⟩ := hedges t List.mem_cons_self
      rw [SyntaxTree.insertJointAmong]
      split
      · next hbefore => exact ⟨hpos, fun _ => hlo, hjoint, hbefore, hcovers, hle, hrest⟩
      · split
        · refine ⟨?_, ?_, ?_, ?_⟩
          · rw [start_insertJoint]
            exact hstart
          · rw [start_insertJoint, stop_insertJoint]
            exact hcovers
          · rw [start_insertJoint, stop_insertJoint]
            exact hle
          · rw [stop_insertJoint]
            exact hrest
        · next hbehind =>
            rcases hs.apart t.stop htstop with hstop | hstop
            · exact ⟨hstart, hcovers, hle,
                ih hrest (fun u hu => hedges u (List.mem_cons_of_mem t hu)) hstop⟩
            -- the edge is not inside the joined line end
            · exact absurd hstop hbehind

/-- Each tree is the joined line end, lies on one side of it, or has it inside. -/
theorem mem_insertJointAmong (hs : Uncut edge s) (h : InOrder lo hi pos ts)
    (hedges : ∀ t ∈ ts, edge t.start ∧ edge t.stop) (hc : c ∈ insertJointAmong s ts) :
    c = joint s ∨ (c ∈ ts ∧ (c.stop ≤ s.start ∨ s.stop ≤ c.start)) ∨
      ∃ t ∈ ts, t.start ≤ s.start ∧ s.stop ≤ t.stop ∧ c = t.insertJoint s := by
  induction ts generalizing pos with
  | nil =>
      rw [insertJointAmong] at hc
      exact Or.inl (List.mem_singleton.1 hc)
  | cons t ts ih =>
      obtain ⟨_, _, hle, hrest⟩ := h
      obtain ⟨htstart, htstop⟩ := hedges t List.mem_cons_self
      rw [insertJointAmong] at hc
      -- the joint goes before the tree, into it or on behind it, as the insertion decides; that no
      -- edge cuts the joint excludes all else
      split at hc
      · next hbefore =>
          rcases List.mem_cons.1 hc with rfl | hc
          · exact Or.inl rfl
          · rcases List.mem_cons.1 hc with rfl | hc'
            · exact Or.inr (Or.inl ⟨hc, Or.inr hbefore⟩)
            · have hpos := (hrest.bounds hc').1
              exact Or.inr (Or.inl ⟨hc, Or.inr (by omega)⟩)
      · next hnot =>
          split at hc
          · next hin =>
              rcases List.mem_cons.1 hc with rfl | hc
              · rcases hs.apart t.start htstart with hstart | hstart
                · exact Or.inr (Or.inr ⟨t, List.mem_cons_self, hstart, hin, rfl⟩)
                · exact absurd hstart hnot
              · have hpos := (hrest.bounds hc).1
                exact Or.inr (Or.inl ⟨List.mem_cons_of_mem t hc, Or.inr (by omega)⟩)
          · next hbehind =>
              rcases List.mem_cons.1 hc with rfl | hc
              · rcases hs.apart c.stop htstop with hstop | hstop
                · exact Or.inr (Or.inl ⟨List.mem_cons_self, Or.inl hstop⟩)
                · exact absurd hstop hbehind
              · rcases ih hrest (fun u hu => hedges u (List.mem_cons_of_mem t hu)) hc with
                  hjoint | ⟨hmem, hside⟩ | ⟨u, hu, hin⟩
                · exact Or.inl hjoint
                · exact Or.inr (Or.inl ⟨List.mem_cons_of_mem t hmem, hside⟩)
                · exact Or.inr (Or.inr ⟨u, List.mem_cons_of_mem t hu, hin⟩)

/-! ## One joined line end -/

/-- A tree that is sound is so with weaker demands on edges, gaps and ends. -/
theorem Sound.mono (h : Sound edge gap behind t) (hedge : ∀ n, edge n → edge' n)
    (hgap : ∀ a b, gap a b → gap' a b) (hbehind : ∀ a b, behind a b → behind' a b) :
    Sound edge' gap' behind' t := by
  obtain ⟨⟨hstart, hstop, hle, hordered⟩, harguments, hkeyword⟩ := h
  refine ⟨⟨hedge _ hstart, hedge _ hstop, hle, hordered⟩, ⟨fun hrole => ?_, hkeyword⟩⟩
  obtain ⟨hlong, hopening, hclosing, hinner, hempty, htrailing⟩ := harguments hrole
  exact ⟨hlong, hedge _ hopening, hedge _ hclosing, hinner, fun hnone => hgap _ _ (hempty hnone),
    fun hkind n hn hchildren => hbehind _ _ (htrailing hkind n hn hchildren)⟩

/-- What may lie in a gap once the joined line end is in the tree. -/
def Fills (s : Span) (gap gap' : Nat → Nat → Prop) : Prop :=
  ∀ a b, gap a b → gap' a b ∨ (a ≤ s.start ∧ s.stop ≤ b)

theorem sound_joint (hs : Uncut edge s) : AllParts (Sound edge gap behind) (joint s) := by
  have hlong := hs.long
  have hle : s.start ≤ s.stop := by omega
  refine AllParts.of_children ⟨⟨hs.start_edge, hs.stop_edge, hle, s.start, Nat.le_refl _, hle⟩, ?_⟩
    ?_
  · exact wellFormed_of_ne (by simp [joint, SyntaxTree.role]) (by simp [joint, SyntaxTree.kind])
  · intro c hc
    exact absurd hc List.not_mem_nil

/-- A tree on one side of the joined line end stays as it is. -/
theorem sound_of_apart (hs : Uncut edge s) (hgap : Fills s gap gap')
    (h : AllParts (Sound edge gap behind) c) (hside : c.stop ≤ s.start ∨ s.stop ≤ c.start) :
    AllParts (Sound edge gap' behind) c := by
  intro u hu
  obtain ⟨hplaced, harguments, hkeyword⟩ := h u hu
  refine ⟨hplaced, ⟨fun hrole => ?_, hkeyword⟩⟩
  have hparen := harguments hrole
  have hlong := hparen.long
  refine ⟨hlong, hparen.opening_edge, hparen.closing_edge, hparen.ordered, fun hempty => ?_,
    hparen.trailing⟩
  rcases hgap _ _ (hparen.gap_of_empty hempty) with hgap' | ⟨hstart, hstop⟩
  · exact hgap'
  -- the joined line end would lie within this part, and so within the tree it is apart from
  · obtain ⟨hcu, huc⟩ := hu.within (h.imp fun _ hv => hv.placed) (by omega)
    have hslong := hs.long
    omega

/-- Parentheses stay around trees that a joint is put among, and then are not empty. -/
theorem Parenthesized.insertJointAmong {kind : Kind} {role : Option Role} {start stop : Nat}
    (hs : Uncut edge s) (h : Parenthesized edge gap behind (.node kind role start stop ts))
    (hedges : ∀ t ∈ ts, edge t.start ∧ edge t.stop) (hstart : start ≤ s.start)
    (hstop : s.stop ≤ stop) :
    Parenthesized edge gap' behind (.node kind role start stop (insertJointAmong s ts)) := by
  have hslong := hs.long
  -- it starts behind the opening mark and ends before the closing one, for both are edges
  have hfirst : start + 1 ≤ s.start := by
    rcases hs.apart _ h.opening_edge with hle | hle
    · exact hle
    · have hle : s.stop ≤ start + 1 := hle
      omega
  have hlast : s.stop ≤ stop - 1 := by
    have hlong : start + 2 ≤ stop := h.long
    rcases hs.apart _ h.closing_edge with hle | hle
    · have hle : stop - 1 ≤ s.start := hle
      omega
    · exact hle
  refine ⟨h.long, h.opening_edge, h.closing_edge, ?_, fun hempty => ?_, fun hkind n hn hafter => ?_⟩
  · exact h.ordered.insertJointAmong hs hedges hfirst hfirst hlast
  -- there is a tree between the marks now
  · exact absurd hempty (insertJointAmong_ne_nil s ts)
  · exact h.trailing hkind n hn (forall_stop_le_of_insertJointAmong hafter)

/-- A tree stays sound when a joined line end is put into it. -/
theorem sound_insertJoint (hs : Uncut edge s) (hgap : Fills s gap gap') (t : SyntaxTree)
    (h : AllParts (Sound edge gap behind) t) (hstart : t.start ≤ s.start)
    (hstop : s.stop ≤ t.stop) :
    AllParts (Sound edge gap' behind) (t.insertJoint s) := by
  induction t using childInduction with
  | step t ih =>
      obtain ⟨kind, role, start, stop, children⟩ := t
      obtain ⟨hplaced, harguments, hkeyword⟩ := h.self
      obtain ⟨pos, hpos, hordered⟩ := hplaced.ordered
      have hedges : ∀ c ∈ children, edge c.start ∧ edge c.stop := fun c hc =>
        ⟨(h.child hc).self.placed.start_edge, (h.child hc).self.placed.stop_edge⟩
      rw [insertJoint]
      refine AllParts.of_children ⟨⟨hplaced.start_edge, hplaced.stop_edge, hplaced.start_le_stop,
        pos, hpos, ?_⟩, ⟨?_, ?_⟩⟩ ?_
      · exact hordered.insertJointAmong hs hedges (Nat.le_trans hpos hstart) hstart hstop
      · intro hrole
        exact (harguments hrole).insertJointAmong hs hedges hstart hstop
      · intro hkind
        exact exists_role_insertJointAmong (hkeyword hkind)
      · intro c hc
        rcases mem_insertJointAmong hs hordered hedges hc with
          rfl | ⟨hmem, hside⟩ | ⟨u, hu, hustart, hustop, rfl⟩
        · exact sound_joint hs
        · exact sound_of_apart hs hgap (h.child hmem) hside
        · exact ih u hu (h.child hu) hustart hustop

end CallFill.Source.SyntaxTree
