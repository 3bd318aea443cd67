import CallFill.Proofs.Source.Tokens
import CallFill.Source.Grammar

/-!
# What a grammar reads

`Grammar.Reads` says what a grammar may read, by one rule for each of its forms; what `run` reads is
among it, and so whatever holds of all such readings is proved along these rules. Whatever a grammar
is, a reading of it takes tokens off the front of what is left, and the last token read ends no
earlier than the one before (`Reader.Advances`).
-/

namespace CallFill.Source

open Text

namespace Reader

/-- The tokens left lie behind the last one read, in order, and start and end at edges. -/
structure Ready (edge : Nat → Prop) (r : Reader) : Prop where
  last_edge : edge r.last
  start_edge : ∀ t ∈ r.rest, edge t.start
  stop_edge : ∀ t ∈ r.rest, edge t.stop
  last_le : ∀ t ∈ r.rest, r.last ≤ t.start
  start_le_stop : ∀ t ∈ r.rest, t.start ≤ t.stop
  start_lt_stop : ∀ t ∈ r.rest, t.kind.isCode = true → t.start < t.stop
  ordered : r.rest.Pairwise fun a b => a.stop ≤ b.start

/-- Reading led from one point to another. -/
structure Advances (edge : Nat → Prop) (before after : Reader) : Prop where
  suffix : after.rest <:+ before.rest
  ready : after.Ready edge
  last_le : before.last ≤ after.last
  /-- Unless nothing was read that takes up room, the first such token is behind. -/
  moved : after.last = before.last ∨
    ∃ t, before.rest.find? Token.isSolid = some t ∧ t.stop ≤ after.last

/-- No token left that takes up room starts before an offset. -/
def Bounds (lo : Nat) (r : Reader) : Prop :=
  ∀ t ∈ r.rest, t.isSolid = true → lo ≤ t.start

variable {edge : Nat → Prop} {r r' r'' : Reader} {lo : Nat}

/-- The tokens left start behind the last one read. -/
theorem Ready.bounds (h : r.Ready edge) : Bounds r.last r :=
  fun t ht _ => h.last_le t ht

theorem Advances.refl (h : r.Ready edge) : Advances edge r r :=
  ⟨List.suffix_refl _, h, Nat.le_refl _, Or.inl rfl⟩

theorem Advances.trans (hr : r.Ready edge) (h : Advances edge r r') (h' : Advances edge r' r'') :
    Advances edge r r'' := by
  refine ⟨h'.suffix.trans h.suffix, h'.ready, Nat.le_trans h.last_le h'.last_le, ?_⟩
  rcases h.moved with hsame | ⟨t, ht, hstop⟩
  · rcases h'.moved with hsame' | ⟨u, hu, hstop⟩
    · exact Or.inl (hsame'.trans hsame)
    · obtain ⟨passed, hpassed⟩ := h.suffix
      have hordered := hr.ordered
      rw [← hpassed] at hordered
      obtain ⟨_, _, hcross⟩ := List.pairwise_append.1 hordered
      have humem := List.mem_of_find?_eq_some hu
      have hule := h.ready.start_le_stop u humem
      refine Or.inr ?_
      rw [← hpassed, List.find?_append]
      cases hfirst : passed.find? Token.isSolid with
      | none => exact ⟨u, hu, hstop⟩
      | some t =>
          have hbefore := hcross t (List.mem_of_find?_eq_some hfirst) u humem
          exact ⟨t, rfl, by omega⟩
  · exact Or.inr ⟨t, ht, Nat.le_trans hstop h'.last_le⟩

/-- The first token that takes up room bounds all those after it. -/
theorem Ready.bounds_first {t : Token} (hr : r.Ready edge)
    (ht : r.rest.find? Token.isSolid = some t) : Bounds t.start r := by
  intro u hu hsolid
  obtain ⟨_, before, behind, hrest, hbefore⟩ := List.find?_eq_some_iff_append.1 ht
  have htle := hr.start_le_stop t (List.mem_of_find?_eq_some ht)
  have hordered := hr.ordered
  rw [hrest] at hordered hu
  rcases List.mem_append.1 hu with hu | hu
  · have hnot := hbefore u hu
    rw [hsolid] at hnot
    exact absurd hnot (by decide)
  · rcases List.mem_cons.1 hu with rfl | hu
    · exact Nat.le_refl _
    · have hle := (List.pairwise_cons.1 (List.pairwise_append.1 hordered).2.1).1 u hu
      omega

/-- Further on, the tokens left start no earlier. -/
theorem Bounds.of_advances (hlo : Bounds lo r) (h : Advances edge r r') : Bounds lo r' :=
  fun t ht hsolid => hlo t (h.suffix.subset ht) hsolid

/-- A token that is taken passes the test and is the first one left. -/
theorem next_eq_some {test : Token → Bool} {t : Token} (h : r.next test = some (t, r')) :
    test t = true ∧ r.rest = t :: r'.rest ∧ r'.last = if t.isSolid then t.stop else r.last := by
  rw [next] at h
  cases hrest : r.rest with
  | nil =>
      rw [hrest] at h
      exact absurd h (by simp)
  | cons u rest =>
      rw [hrest] at h
      dsimp only at h
      cases htest : test u with
      | false =>
          rw [htest] at h
          exact absurd h (by simp)
      | true =>
          rw [htest, if_pos rfl] at h
          obtain ⟨rfl, rfl⟩ := Prod.mk.inj (Option.some.inj h)
          exact ⟨htest, rfl, rfl⟩

/-- Reading one token. -/
theorem Ready.next {test : Token → Bool} {t : Token} (h : r.Ready edge)
    (hnext : r.next test = some (t, r')) : Advances edge r r' := by
  obtain ⟨_, hrest, hlast⟩ := next_eq_some hnext
  have hmem : t ∈ r.rest := by
    rw [hrest]
    exact List.mem_cons_self
  have hsuffix : r'.rest <:+ r.rest := by
    rw [hrest]
    exact List.suffix_cons t r'.rest
  have hsub := hsuffix.subset
  have hordered := h.ordered
  rw [hrest] at hordered
  obtain ⟨hbehind, hordered'⟩ := List.pairwise_cons.1 hordered
  have hstart := h.last_le t hmem
  have hle := h.start_le_stop t hmem
  -- a token of the layout takes up no room, so the last offset stays
  cases hsolid : t.isSolid with
  | true =>
      rw [hsolid, if_pos rfl] at hlast
      have hfirst : r.rest.find? Token.isSolid = some t := by
        rw [hrest, List.find?_cons_of_pos hsolid]
      refine ⟨hsuffix, ?_, by omega, Or.inr ⟨t, hfirst, Nat.le_of_eq hlast.symm⟩⟩
      refine ⟨?_, fun u hu => h.start_edge u (hsub hu), fun u hu => h.stop_edge u (hsub hu), ?_,
        fun u hu => h.start_le_stop u (hsub hu), fun u hu => h.start_lt_stop u (hsub hu), hordered'⟩
      · rw [hlast]
        exact h.stop_edge t hmem
      · intro u hu
        rw [hlast]
        exact hbehind u hu
  | false =>
      rw [hsolid, if_neg (by decide)] at hlast
      refine ⟨hsuffix, ?_, by omega, Or.inl hlast⟩
      refine ⟨?_, fun u hu => h.start_edge u (hsub hu), fun u hu => h.stop_edge u (hsub hu), ?_,
        fun u hu => h.start_le_stop u (hsub hu), fun u hu => h.start_lt_stop u (hsub hu), hordered'⟩
      · rw [hlast]
        exact h.last_edge
      · intro u hu
        rw [hlast]
        exact h.last_le u (hsub hu)

end Reader

namespace Grammar

variable {ρ : Type}

/-- A tree in the role that an addition gives it. -/
def takenIn (chosen : Tag) (t : SyntaxTree) : SyntaxTree :=
  match chosen.leftRole with
  | some part => t.withRole part
  | none => t

/-- What a grammar may read, without a bound on the steps. A reading by `run` is one of these; which
of two choices it takes, and where it stops repeating, is left open here. -/
inductive Reads (rules : ρ → Grammar ρ) : Grammar ρ → Reader → Reading → Prop where
  | token {test : Token → Bool} {t : Token} {r r' : Reader} (hnext : r.next test = some (t, r')) :
      Reads rules (token test) r ⟨[], none, r'⟩
  | leaf {kind : Kind} {test : Token → Bool} {t : Token} {r r' : Reader}
      (hnext : r.next test = some (t, r')) :
      Reads rules (leaf kind test) r ⟨[.node kind none t.start t.stop []], none, r'⟩
  | rule {name : ρ} {r : Reader} {x : Reading} (h : Reads rules (rules name) r x) :
      Reads rules (rule name) r x
  | empty (r : Reader) : Reads rules empty r ⟨[], none, r⟩
  | seq {a b : Grammar ρ} {r : Reader} {x y : Reading} (ha : Reads rules a r x)
      (hb : Reads rules b x.after y) :
      Reads rules (seq a b) r ⟨x.trees ++ y.trees, y.tag.or x.tag, y.after⟩
  | first {a b : Grammar ρ} {r : Reader} {x : Reading} (ha : Reads rules a r x) :
      Reads rules (choice a b) r x
  | second {a b : Grammar ρ} {r : Reader} {x : Reading} (hb : Reads rules b r x) :
      Reads rules (choice a b) r x
  | stop (item : Grammar ρ) (r : Reader) : Reads rules (many item) r ⟨[], none, r⟩
  | more {item : Grammar ρ} {r : Reader} {x y : Reading} (hitem : Reads rules item r x)
      (hmore : Reads rules (many item) x.after y) :
      Reads rules (many item) r ⟨x.trees ++ y.trees, y.tag.or x.tag, y.after⟩
  | node {kind : Kind} {inner : Grammar ρ} {r : Reader} {x : Reading}
      (h : Reads rules inner r x) :
      Reads rules (node kind inner) r
        ⟨[.node (x.tag.elim kind Tag.kind) none (r.span x.after).start (r.span x.after).stop
          x.trees], none, x.after⟩
  | base {base addition : Grammar ρ} {again : Bool} {r : Reader} {x : Reading}
      (h : Reads rules base r x) : Reads rules (extend base addition again) r x
  | untagged {base addition : Grammar ρ} {again : Bool} {r after : Reader} {t : SyntaxTree}
      {tag : Option Tag} (h : Reads rules base r ⟨[t], tag, after⟩) :
      Reads rules (extend base addition again) r ⟨[t], none, after⟩
  | extended {base addition : Grammar ρ} {again : Bool} {r mid after : Reader} {t : SyntaxTree}
      {trees : List SyntaxTree} {chosen : Tag}
      (h : Reads rules (extend base addition again) r ⟨[t], none, mid⟩)
      (hadd : Reads rules addition mid ⟨trees, some chosen, after⟩) :
      Reads rules (extend base addition again) r
        ⟨[.node chosen.kind none t.start after.last (takenIn chosen t :: trees)], none, after⟩
  | tag (t : Tag) (r : Reader) : Reads rules (tag t) r ⟨[], some t, r⟩
  | role {part : Role} {inner : Grammar ρ} {r : Reader} {x : Reading} (h : Reads rules inner r x) :
      Reads rules (role part inner) r { x with trees := x.trees.map (SyntaxTree.withRole part) }
  | ahead (inner : Grammar ρ) (r : Reader) : Reads rules (ahead inner) r ⟨[], none, r⟩
  | absent (inner : Grammar ρ) (r : Reader) : Reads rules (absent inner) r ⟨[], none, r⟩
  | byKind {test : Kind → Bool} {inner yes no : Grammar ρ} {r after : Reader} {t : SyntaxTree}
      {chosen : Option Tag} {y : Reading} (h : Reads rules inner r ⟨[t], chosen, after⟩)
      (hy : Reads rules (if test t.kind then yes else no) after y) :
      Reads rules (byKind test inner yes no) r ⟨t :: y.trees, y.tag.or chosen, y.after⟩

variable {rules : ρ → Grammar ρ} {g : Grammar ρ} {r : Reader} {x : Reading}

mutual

/-- What is read step by step is a reading of the grammar. -/
theorem reads_of_run (fuel : Nat) (g : Grammar ρ) {r : Reader} {x : Reading}
    (h : run rules fuel g r = some x) : Reads rules g r x := by
  cases fuel with
  | zero => exact absurd h (by simp [run])
  | succ fuel =>
      cases g with
      | token test =>
          rw [run] at h
          obtain ⟨⟨t, r'⟩, hnext, rfl⟩ := Option.map_eq_some_iff.1 h
          exact Reads.token hnext
      | leaf kind test =>
          rw [run] at h
          obtain ⟨⟨t, r'⟩, hnext, rfl⟩ := Option.map_eq_some_iff.1 h
          exact Reads.leaf hnext
      | rule name =>
          rw [run] at h
          exact Reads.rule (reads_of_run fuel (rules name) h)
      | empty =>
          rw [run] at h
          obtain rfl := Option.some.inj h
          exact Reads.empty r
      | seq a b =>
          rw [run] at h
          cases ha : run rules fuel a r with
          | none => simp [ha] at h
          | some xa =>
              cases hb : run rules fuel b xa.after with
              | none => simp [ha, hb] at h
              | some xb =>
                  simp only [ha, hb, Option.some.injEq] at h
                  subst h
                  exact Reads.seq (reads_of_run fuel a ha) (reads_of_run fuel b hb)
      | choice a b =>
          rw [run] at h
          cases ha : run rules fuel a r with
          | none =>
              rw [ha] at h
              exact Reads.second (reads_of_run fuel b h)
          | some xa =>
              rw [ha] at h
              obtain rfl := Option.some.inj h
              exact Reads.first (reads_of_run fuel a ha)
      | many item =>
          rw [run] at h
          cases ha : run rules fuel item r with
          | none =>
              rw [ha] at h
              obtain rfl := Option.some.inj h
              exact Reads.stop item r
          | some xa =>
              rw [ha] at h
              dsimp only at h
              -- an item that takes no token ends the repetition: this is a reading without it
              split at h
              · cases hb : run rules fuel (many item) xa.after with
                | none => simp [hb] at h
                | some xb =>
                    simp only [hb, Option.some.injEq] at h
                    subst h
                    exact Reads.more (reads_of_run fuel item ha) (reads_of_run fuel (many item) hb)
              · obtain rfl := Option.some.inj h
                exact Reads.stop item r
      | node kind inner =>
          rw [run] at h
          cases ha : run rules fuel inner r with
          | none => simp [ha] at h
          | some xa =>
              have hnode : Reads rules (.node kind inner) r _ :=
                Reads.node (reads_of_run fuel inner ha)
              rw [ha] at h
              obtain rfl := Option.some.inj h
              -- the tag read last names the kind, and the form itself where there is none
              cases htag : xa.tag with
              | none =>
                  rw [htag] at hnode
                  exact hnode
              | some chosen =>
                  rw [htag] at hnode
                  exact hnode
      | extend base addition again =>
          rw [run] at h
          split at h
          -- only a single tree is extended; any other reading is passed on
          · next t tag after ha =>
              obtain rfl := Option.some.inj h
              exact reads_of_extendFrom fuel addition again
                (Reads.untagged (reads_of_run fuel base ha))
          · exact Reads.base (reads_of_run fuel base h)
      | tag t =>
          rw [run] at h
          obtain rfl := Option.some.inj h
          exact Reads.tag t r
      | role part inner =>
          rw [run] at h
          obtain ⟨xa, ha, rfl⟩ := Option.map_eq_some_iff.1 h
          exact Reads.role (reads_of_run fuel inner ha)
      | ahead inner =>
          rw [run] at h
          cases ha : run rules fuel inner r with
          | none => simp [ha] at h
          | some xa =>
              rw [ha] at h
              obtain rfl := Option.some.inj h
              exact Reads.ahead inner r
      | absent inner =>
          rw [run] at h
          cases ha : run rules fuel inner r with
          | some xa => simp [ha] at h
          | none =>
              rw [ha] at h
              obtain rfl := Option.some.inj h
              exact Reads.absent inner r
      | byKind test inner yes no =>
          rw [run] at h
          split at h
          · next t chosen after ha =>
              obtain ⟨y, hy, rfl⟩ := Option.map_eq_some_iff.1 h
              exact Reads.byKind (reads_of_run fuel inner ha) (reads_of_run fuel _ hy)
          · exact absurd h (by simp)

/-- A tree that was read, with the additions that take it in, is a reading of both together. -/
theorem reads_of_extendFrom {base : Grammar ρ} (fuel : Nat) (addition : Grammar ρ) (again : Bool)
    {r mid : Reader} {t : SyntaxTree}
    (h : Reads rules (extend base addition again) r ⟨[t], none, mid⟩) :
    Reads rules (extend base addition again) r (extendFrom rules fuel addition again t mid) := by
  cases fuel with
  | zero => exact h
  | succ fuel =>
      rw [extendFrom]
      split
      · next trees chosen after hadd =>
          have hwhole := Reads.extended h (reads_of_run fuel addition hadd)
          dsimp only
          split
          · exact reads_of_extendFrom fuel addition again hwhole
          · exact hwhole
      · exact h

end

end Grammar

end CallFill.Source
