import CallFill.Proofs.Source.Layout
import CallFill.Proofs.Source.Reading

/-!
# What the form of a grammar tells of its readings

Some things can be seen from the form of a grammar: that its readings leave no tree (`Bare`), that
they take a token that code begins with (`Takes`), that they leave exactly one tree, which starts at
a token and ends with the reading (`Whole`), and that all their trees lie in order in the text
(`Orderly`). The last asks one thing only: that the tree that an addition takes in starts at a
token, since the tree around it starts where it does.
-/

namespace CallFill.Source.Grammar

open Reader SyntaxTree

variable {ρ : Type} {rules : ρ → Grammar ρ} {edge : Nat → Prop} {g : Grammar ρ} {r : Reader}
  {x : Reading}

/-- What reading one token keeps is kept by a whole reading. -/
theorem Reads.kept {P : Reader → Prop}
    (hnext : ∀ (test : Token → Bool) (t : Token) (r r' : Reader), r.next test = some (t, r') →
      P r → P r')
    (h : Reads rules g r x) (hr : P r) : P x.after := by
  induction h with
  | token ht => exact hnext _ _ _ _ ht hr
  | leaf ht => exact hnext _ _ _ _ ht hr
  | rule h ih => exact ih hr
  | empty r => exact hr
  | seq ha hb iha ihb => exact ihb (iha hr)
  | first ha ih => exact ih hr
  | second hb ih => exact ih hr
  | stop item r => exact hr
  | more hitem hmore ihitem ihmore => exact ihmore (ihitem hr)
  | node h ih => exact ih hr
  | base h ih => exact ih hr
  | untagged h ih => exact ih hr
  | extended h hadd ih ihadd => exact ihadd (ih hr)
  | tag t r => exact hr
  | role h ih => exact ih hr
  | ahead inner r => exact hr
  | absent inner r => exact hr
  | byKind h hy ih ihy => exact ihy (ih hr)

/-- A reading takes tokens off the front of what is left. -/
theorem Reads.advances (h : Reads rules g r x) (hr : r.Ready edge) : Advances edge r x.after := by
  refine h.kept (P := Advances edge r) ?_ (Advances.refl hr)
  intro test t r' r'' hnext hadvances
  exact hadvances.trans hr (hadvances.ready.next hnext)

/-! ## No tree -/

/-- Readings of the grammar leave no tree. -/
def Bare : Grammar ρ → Prop
  | token _ | empty | tag _ | ahead _ | absent _ => True
  | seq a b | choice a b => Bare a ∧ Bare b
  | many a | role _ a => Bare a
  | _ => False

/-- A grammar that leaves no tree leaves none, whatever it reads. -/
theorem Reads.trees_of_bare (h : Reads rules g r x) (hg : g.Bare) : x.trees = [] := by
  induction h with
  | token hnext => rfl
  | empty r => rfl
  | seq ha hb iha ihb =>
      show _ ++ _ = []
      rw [iha hg.1, ihb hg.2]
      rfl
  | first ha ih => exact ih hg.1
  | second hb ih => exact ih hg.2
  | stop item r => rfl
  | more hitem hmore ihitem ihmore =>
      show _ ++ _ = []
      rw [ihitem hg, ihmore hg]
      rfl
  | tag t r => rfl
  | role h ih =>
      show List.map _ _ = []
      rw [ih hg]
      rfl
  | ahead inner r => rfl
  | absent inner r => rfl
  | leaf _ | rule _ _ | node _ _ | base _ _ | untagged _ _ | extended _ _ _ _ | byKind _ _ _ _ =>
      exact absurd hg id

/-- Readings of the grammar take nothing. -/
def Still : Grammar ρ → Prop
  | empty | tag _ | ahead _ | absent _ => True
  | seq a b | choice a b => Still a ∧ Still b
  | _ => False

/-- A grammar that takes nothing leaves the reader where it was. -/
theorem Reads.eq_of_still (h : Reads rules g r x) (hg : g.Still) :
    x.trees = [] ∧ x.after = r := by
  induction h with
  | empty r => exact ⟨rfl, rfl⟩
  | seq ha hb iha ihb =>
      obtain ⟨htrees, hafter⟩ := iha hg.1
      obtain ⟨htrees', hafter'⟩ := ihb hg.2
      refine ⟨?_, hafter'.trans hafter⟩
      show _ ++ _ = []
      rw [htrees, htrees']
      rfl
  | first ha ih => exact ih hg.1
  | second hb ih => exact ih hg.2
  | tag t r => exact ⟨rfl, rfl⟩
  | ahead inner r => exact ⟨rfl, rfl⟩
  | absent inner r => exact ⟨rfl, rfl⟩
  | token _ | leaf _ | rule _ _ | stop _ _ | more _ _ _ _ | node _ _ | base _ _ | untagged _ _
  | extended _ _ _ _ | role _ _ | byKind _ _ _ _ => exact absurd hg id

/-! ## A token of code -/

/-- Readings of the grammar take a token that code begins with; `known` says of which rules this is
to be relied on. -/
def Takes (known : ρ → Prop) : Grammar ρ → Prop
  | token test | leaf _ test => ∀ t, test t = true → t.kind.isCode = true
  | rule name => known name
  | seq a b => Takes known a ∨ Takes known b
  | choice a b => Takes known a ∧ Takes known b
  | node _ a | role _ a | extend a _ _ | byKind _ a _ _ => Takes known a
  | _ => False

variable {known : ρ → Prop}

/-- Code takes up room. -/
theorem isSolid_of_isCode {t : Token} (h : t.kind.isCode = true) : t.isSolid = true := by
  rw [Token.isSolid]
  revert h
  cases t.kind <;> decide

/-- A token of code that is taken moves the reader on. -/
theorem last_lt_of_next {test : Token → Bool} {t : Token} {r' : Reader} (hr : r.Ready edge)
    (hnext : r.next test = some (t, r')) (hcode : ∀ t, test t = true → t.kind.isCode = true) :
    r.last < r'.last := by
  obtain ⟨htest, hrest, hlast⟩ := next_eq_some hnext
  have hmem : t ∈ r.rest := by
    rw [hrest]
    exact List.mem_cons_self
  have hkind := hcode t htest
  have hlt := hr.start_lt_stop t hmem hkind
  have hle := hr.last_le t hmem
  rw [isSolid_of_isCode hkind, if_pos rfl] at hlast
  omega

/-- A reading that takes a token of code ends behind where it began. -/
theorem Reads.last_lt (hknown : ∀ name, known name → (rules name).Takes known)
    (h : Reads rules g r x) (hg : g.Takes known) (hr : r.Ready edge) : r.last < x.after.last := by
  induction h with
  | token hnext => exact last_lt_of_next hr hnext hg
  | leaf hnext => exact last_lt_of_next hr hnext hg
  | rule h ih => exact ih (hknown _ hg) hr
  | seq ha hb iha ihb =>
      have hfirst := ha.advances hr
      have hsecond := hb.advances hfirst.ready
      rcases hg with hg | hg
      · exact Nat.lt_of_lt_of_le (iha hg hr) hsecond.last_le
      · exact Nat.lt_of_le_of_lt hfirst.last_le (ihb hg hfirst.ready)
  | first ha ih => exact ih hg.1 hr
  | second hb ih => exact ih hg.2 hr
  | node h ih => exact ih hg hr
  | base h ih => exact ih hg hr
  | untagged h ih => exact ih hg hr
  | extended h hadd ih ihadd =>
      have hmid := h.advances hr
      exact Nat.lt_of_lt_of_le (ih hg hr) (hadd.advances hmid.ready).last_le
  | role h ih => exact ih hg hr
  | byKind h hy ih ihy =>
      have hfirst := h.advances hr
      exact Nat.lt_of_lt_of_le (ih hg hr) (hy.advances hfirst.ready).last_le
  | empty _ | stop _ _ | more _ _ _ _ | tag _ _ | ahead _ _ | absent _ _ => exact absurd hg id

/-! ## The stretch of a tree -/

/-- What was read covers nothing, or starts at the first token that takes up room. -/
theorem span_cases {after : Reader} (h : Advances edge r after) :
    (r.span after = ⟨r.last, r.last⟩ ∧ after.last = r.last) ∨
      ∃ t, r.rest.find? Token.isSolid = some t ∧ t.stop ≤ after.last ∧
        r.span after = ⟨t.start, after.last⟩ := by
  rw [span]
  by_cases hsame : after.last = r.last
  · rw [if_pos hsame]
    exact Or.inl ⟨rfl, hsame⟩
  · rw [if_neg hsame]
    rcases h.moved with hlast | ⟨t, ht, hstop⟩
    · exact absurd hlast hsame
    · rw [ht]
      exact Or.inr ⟨t, rfl, hstop, rfl⟩

/-- A tree starts no earlier than the first token left that takes up room. -/
def Anchored (r : Reader) (t : SyntaxTree) : Prop :=
  ∀ lo, Bounds lo r → lo ≤ t.start

/-- Readings of the grammar leave exactly one tree, which is anchored and ends where they do. -/
def Whole (known : ρ → Prop) : Grammar ρ → Prop
  | leaf _ test => ∀ t, test t = true → t.isSolid = true
  | rule name => known name
  | seq a b => (Whole known a ∧ Still b) ∨ (Bare a ∧ Whole known b)
  | choice a b => Whole known a ∧ Whole known b
  | node _ a => Takes known a
  | extend a _ _ | role _ a => Whole known a
  | byKind _ a b c => Whole known a ∧ Still b ∧ Still c
  | _ => False

/-- The rules that are relied on take a token of code and leave one tree. -/
def Reliable (rules : ρ → Grammar ρ) (known : ρ → Prop) : Prop :=
  ∀ name, known name → (rules name).Takes known ∧ (rules name).Whole known

/-- A grammar that leaves one tree leaves it from the first token on up to the last one read. -/
theorem Reads.whole (hknown : Reliable rules known) (h : Reads rules g r x)
    (hg : g.Whole known) (hr : r.Ready edge) :
    ∃ t, x.trees = [t] ∧ Anchored r t ∧ t.stop = x.after.last := by
  induction h with
  | leaf hnext =>
      obtain ⟨htest, hrest, hlast⟩ := next_eq_some hnext
      have hsolid := hg _ htest
      rw [hsolid, if_pos rfl] at hlast
      refine ⟨_, rfl, fun lo hlo => hlo _ ?_ hsolid, hlast.symm⟩
      rw [hrest]
      exact List.mem_cons_self
  | rule h ih => exact ih (hknown _ hg).2 hr
  | @seq a b r x y ha hb iha ihb =>
      have hfirst := ha.advances hr
      rcases hg with ⟨hwhole, hstill⟩ | ⟨hbare, hwhole⟩
      · obtain ⟨t, ht, hanchored, hstop⟩ := iha hwhole hr
        obtain ⟨htrees, hafter⟩ := hb.eq_of_still hstill
        refine ⟨t, ?_, hanchored, ?_⟩
        · show _ ++ _ = [t]
          rw [ht, htrees]
          rfl
        · show t.stop = y.after.last
          rw [hafter]
          exact hstop
      · obtain ⟨t, ht, hanchored, hstop⟩ := ihb hwhole hfirst.ready
        refine ⟨t, ?_, fun lo hlo => hanchored lo (hlo.of_advances hfirst), hstop⟩
        show _ ++ _ = [t]
        rw [ht, ha.trees_of_bare hbare]
        rfl
  | first ha ih => exact ih hg.1 hr
  | second hb ih => exact ih hg.2 hr
  | @node kind inner r x h ih =>
      -- the tree covers a token of code, so it starts where the first of its tokens does
      have hlt := h.last_lt (fun name hname => (hknown name hname).1) hg hr
      rcases span_cases (h.advances hr) with ⟨_, hsame⟩ | ⟨t, ht, _, hspan⟩
      · omega
      · refine ⟨_, rfl, fun lo hlo => ?_, ?_⟩
        · have hle := hlo t (List.mem_of_find?_eq_some ht) (List.find?_some ht)
          show lo ≤ (r.span x.after).start
          rw [hspan]
          exact hle
        · show (r.span x.after).stop = x.after.last
          rw [hspan]
  | base h ih => exact ih hg hr
  | untagged h ih => exact ih hg hr
  | extended h hadd ih ihadd =>
      obtain ⟨t, ht, hanchored, _⟩ := ih hg hr
      obtain ⟨rfl, _⟩ := List.cons.inj ht
      exact ⟨_, rfl, hanchored, rfl⟩
  | @role part inner r x h ih =>
      obtain ⟨t, ht, hanchored, hstop⟩ := ih hg hr
      refine ⟨_, congrArg (List.map _) ht, fun lo hlo => ?_, ?_⟩
      · rw [start_withRole]
        exact hanchored lo hlo
      · rw [stop_withRole]
        exact hstop
  | @byKind test inner yes no r after t chosen y h hy ih ihy =>
      obtain ⟨u, hu, hanchored, hstop⟩ := ih hg.1 hr
      obtain ⟨rfl, _⟩ := List.cons.inj hu
      obtain ⟨htrees, hafter⟩ := hy.eq_of_still (by
        split
        · exact hg.2.1
        · exact hg.2.2)
      refine ⟨t, ?_, hanchored, ?_⟩
      · rw [htrees]
      · show t.stop = y.after.last
        rw [hafter]
        exact hstop
  | token _ | empty _ | stop _ _ | more _ _ _ _ | tag _ _ | ahead _ _ | absent _ _ =>
      exact absurd hg id

/-! ## Trees in order -/

/-- Trees that the grammar leaves lie in order, if those of its rules do. -/
def Orderly (known : ρ → Prop) : Grammar ρ → Prop
  | token _ | rule _ | empty | tag _ | ahead _ | absent _ => True
  | leaf _ test => ∀ t, test t = true → t.isSolid = true
  | seq a b | choice a b => Orderly known a ∧ Orderly known b
  | many a | node _ a | role _ a => Orderly known a
  | extend a b _ => Whole known a ∧ Orderly known a ∧ Orderly known b
  | byKind _ a b c => Orderly known a ∧ Orderly known b ∧ Orderly known c

/-- A tree that an addition takes in stays well placed. -/
theorem placed_takenIn {t : SyntaxTree} (chosen : Tag) (h : AllParts (Placed edge) t) :
    AllParts (Placed edge) (takenIn chosen t) := by
  rw [takenIn]
  cases chosen.leftRole with
  | none => exact h
  | some part => exact h.withRole part fun ht => ht.withRole part

theorem start_takenIn (chosen : Tag) (t : SyntaxTree) : (takenIn chosen t).start = t.start := by
  rw [takenIn]
  cases chosen.leftRole with
  | none => rfl
  | some part => exact start_withRole part t

theorem stop_takenIn (chosen : Tag) (t : SyntaxTree) : (takenIn chosen t).stop = t.stop := by
  rw [takenIn]
  cases chosen.leftRole with
  | none => rfl
  | some part => exact stop_withRole part t

/-- The trees of a reading are placed well, and follow each other between the tokens read. -/
structure InPlace (edge : Nat → Prop) (r : Reader) (x : Reading) : Prop where
  placed : ∀ t ∈ x.trees, AllParts (Placed edge) t
  ordered : ∀ lo, Bounds lo r → InOrder lo x.after.last r.last x.trees

theorem InPlace.of_no_trees {after : Reader} {tag : Option Tag} (h : Advances edge r after) :
    InPlace edge r ⟨[], tag, after⟩ :=
  ⟨fun _ ht => absurd ht List.not_mem_nil, fun _ _ => h.last_le⟩

/-- What is read after one another lies in order if both parts do. -/
theorem InPlace.append {y : Reading} {tag : Option Tag} (hx : InPlace edge r x)
    (hadvances : Advances edge r x.after) (hy : InPlace edge x.after y) :
    InPlace edge r ⟨x.trees ++ y.trees, tag, y.after⟩ := by
  refine ⟨?_, ?_⟩
  · intro t ht
    rcases List.mem_append.1 ht with ht | ht
    · exact hx.placed t ht
    · exact hy.placed t ht
  · intro lo hlo
    exact (hx.ordered lo hlo).append (hy.ordered lo (hlo.of_advances hadvances))

/-- A tree around what was read. -/
theorem InPlace.node {kind : Kind} (hr : r.Ready edge) (hx : InPlace edge r x)
    (hadvances : Advances edge r x.after) :
    InPlace edge r ⟨[.node kind none (r.span x.after).start (r.span x.after).stop x.trees], none,
      x.after⟩ := by
  have hspan := span_cases hadvances
  -- the tree starts at the first token that takes up room, or where the last one ended if none was
  -- read
  have hbounds : Bounds (r.span x.after).start r ∧ r.last ≤ (r.span x.after).start ∧
      (r.span x.after).start ≤ (r.span x.after).stop ∧ (r.span x.after).stop = x.after.last ∧
      edge (r.span x.after).start := by
    rcases hspan with ⟨hspan, hsame⟩ | ⟨t, ht, hstop, hspan⟩
    · rw [hspan]
      exact ⟨hr.bounds, Nat.le_refl _, Nat.le_refl _, hsame.symm, hr.last_edge⟩
    · have hmem := List.mem_of_find?_eq_some ht
      have hle := hr.start_le_stop t hmem
      rw [hspan]
      exact ⟨hr.bounds_first ht, hr.last_le t hmem, Nat.le_trans hle hstop, rfl,
        hr.start_edge t hmem⟩
  obtain ⟨hfirst, hlast, hle, hstop, hedge⟩ := hbounds
  have hordered := hx.ordered _ hfirst
  refine ⟨?_, ?_⟩
  · intro t ht
    obtain rfl := List.mem_singleton.1 ht
    refine AllParts.of_children ⟨hedge, ?_, hle, r.last, hlast, ?_⟩ hx.placed
    · show edge (r.span x.after).stop
      rw [hstop]
      exact hadvances.ready.last_edge
    · show InOrder _ (r.span x.after).stop _ _
      rw [hstop]
      exact hordered
  · intro lo hlo
    refine InOrder.singleton hlast ?_ hle (Nat.le_of_eq hstop)
    intro hcovers
    rcases hspan with ⟨hspan, _⟩ | ⟨t, ht, _, hspan⟩
    · rw [hspan] at hcovers
      exact absurd hcovers (Nat.lt_irrefl _)
    · show lo ≤ (r.span x.after).start
      rw [hspan]
      exact hlo t (List.mem_of_find?_eq_some ht) (List.find?_some ht)

/-- A tree around a tree that was read before and what was read after it. -/
theorem InPlace.extended {mid after : Reader} {t : SyntaxTree} {trees : List SyntaxTree}
    {chosen : Tag} {tag : Option Tag} (hx : InPlace edge r ⟨[t], tag, mid⟩) (ht : Anchored r t)
    (hmid : Advances edge r mid) (hadd : InPlace edge mid ⟨trees, some chosen, after⟩)
    (hafter : Advances edge mid after) :
    InPlace edge r
      ⟨[.node chosen.kind none t.start after.last (takenIn chosen t :: trees)], none, after⟩ := by
  have htree := hx.placed t List.mem_cons_self
  obtain ⟨hlast, _, hle, hmidle⟩ := hx.ordered 0 fun _ _ _ => Nat.zero_le _
  have hlate : t.stop ≤ mid.last := hmidle
  have hafterle := hafter.last_le
  refine ⟨?_, ?_⟩
  · intro u hu
    obtain rfl := List.mem_singleton.1 hu
    refine AllParts.of_children ⟨htree.self.start_edge, hafter.ready.last_edge, ?_, t.start,
      Nat.le_refl _, ?_⟩ ?_
    · show t.start ≤ after.last
      omega
    · refine ⟨?_, ?_, ?_, ?_⟩
      · rw [start_takenIn]
      · rw [start_takenIn]
        exact fun _ => Nat.le_refl _
      · rw [start_takenIn, stop_takenIn]
        exact hle
      -- what was read after the tree is behind all of it, and so behind its start
      · rw [stop_takenIn]
        refine (hadd.ordered t.start ?_).weaken hlate
        intro u hu hsolid
        have hbehind := hmid.ready.last_le u hu
        omega
    · intro c hc
      rcases List.mem_cons.1 hc with rfl | hc
      · exact placed_takenIn chosen htree
      · exact hadd.placed c hc
  · intro lo hlo
    refine InOrder.singleton hlast (fun _ => ht lo hlo) ?_ (Nat.le_refl _)
    show t.start ≤ after.last
    omega

/-- The trees of a reading lie in order: the induction follows the reading, and an addition begins
with the one tree that was read before it. -/
theorem Reads.inPlace (hknown : Reliable rules known)
    (horderly : ∀ name, (rules name).Orderly known) (h : Reads rules g r x)
    (hg : g.Orderly known) (hr : r.Ready edge) : InPlace edge r x := by
  induction h with
  | token hnext => exact InPlace.of_no_trees (hr.next hnext)
  | @leaf kind test t r r' hnext =>
      obtain ⟨htest, hrest, hlast⟩ := next_eq_some hnext
      have hmem : t ∈ r.rest := by
        rw [hrest]
        exact List.mem_cons_self
      have hsolid := hg t htest
      have hle := hr.start_le_stop t hmem
      rw [hsolid, if_pos rfl] at hlast
      refine ⟨?_, ?_⟩
      · intro u hu
        obtain rfl := List.mem_singleton.1 hu
        refine AllParts.of_children ⟨hr.start_edge t hmem, hr.stop_edge t hmem, hle, t.start,
          Nat.le_refl _, hle⟩ ?_
        intro c hc
        exact absurd hc List.not_mem_nil
      · intro lo hlo
        exact InOrder.singleton (hr.last_le t hmem) (fun _ => hlo t hmem hsolid) hle
          (Nat.le_of_eq hlast.symm)
  | rule h ih => exact ih (horderly _) hr
  | empty r => exact InPlace.of_no_trees (Advances.refl hr)
  | seq ha hb iha ihb =>
      have hfirst := ha.advances hr
      exact (iha hg.1 hr).append hfirst (ihb hg.2 hfirst.ready)
  | first ha ih => exact ih hg.1 hr
  | second hb ih => exact ih hg.2 hr
  | stop item r => exact InPlace.of_no_trees (Advances.refl hr)
  | more hitem hmore ihitem ihmore =>
      have hfirst := hitem.advances hr
      exact (ihitem hg hr).append hfirst (ihmore hg hfirst.ready)
  | node h ih => exact (ih hg hr).node hr (h.advances hr)
  | base h ih => exact ih hg.2.1 hr
  | untagged h ih =>
      obtain ⟨hplaced, hordered⟩ := ih hg.2.1 hr
      exact ⟨hplaced, hordered⟩
  | extended h hadd ih ihadd =>
      have hmid := h.advances hr
      -- the whole tree starts where the tree taken in does, so this one must not start in front of
      -- the tokens
      obtain ⟨t, ht, hanchored, _⟩ := h.whole hknown hg.1 hr
      obtain ⟨rfl, _⟩ := List.cons.inj ht
      exact (ih hg hr).extended hanchored hmid (ihadd hg.2.2 hmid.ready) (hadd.advances hmid.ready)
  | tag t r => exact InPlace.of_no_trees (Advances.refl hr)
  | role h ih =>
      obtain ⟨hplaced, hordered⟩ := ih hg hr
      refine ⟨?_, fun lo hlo => (hordered lo hlo).map_withRole _⟩
      intro u hu
      obtain ⟨t, ht, rfl⟩ := List.mem_map.1 hu
      exact (hplaced t ht).withRole _ fun hself => hself.withRole _
  | ahead inner r => exact InPlace.of_no_trees (Advances.refl hr)
  | absent inner r => exact InPlace.of_no_trees (Advances.refl hr)
  | byKind h hy ih ihy =>
      have hfirst := h.advances hr
      refine (ih hg.1 hr).append hfirst (ihy ?_ hfirst.ready)
      split
      · exact hg.2.1
      · exact hg.2.2

end CallFill.Source.Grammar
