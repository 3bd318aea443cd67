import CallFill.Typing
import Mathlib.Data.List.Forall2

/-!
# Steps on the tables

Typing enters types and symbols, one after another. Two things are kept track of through such a
sequence of steps. `Ensures` says what a run does: the tables only grow, an invariant stays, and
something holds of the result. `Settles` says what a run does after which another one is of no
effect: on any tables that hold all that was entered, the step gives the same result again and adds
nothing.
-/

namespace CallFill

namespace Tables

/-- Every symbol and every type of the first tables has the same handle in the second. -/
structure Within (s t : Tables) : Prop where
  symbols : s.symbols.symbols <+: t.symbols.symbols
  types : s.types.nodes <+: t.types.nodes

namespace Within

variable {s t u : Tables}

theorem refl (t : Tables) : t.Within t :=
  ⟨List.prefix_refl _, List.prefix_refl _⟩

theorem trans (hst : s.Within t) (htu : t.Within u) : s.Within u :=
  ⟨hst.symbols.trans htu.symbols, hst.types.trans htu.types⟩

/-- Tables that lie in each other are the same. -/
theorem antisymm (hst : s.Within t) (hts : t.Within s) : s = t := by
  obtain ⟨⟨symbols⟩, ⟨nodes⟩⟩ := s
  obtain ⟨⟨symbols'⟩, ⟨nodes'⟩⟩ := t
  have hsymbols : symbols = symbols' := hst.symbols.eq_of_length_le hts.symbols.length_le
  have hnodes : nodes = nodes' := hst.types.eq_of_length_le hts.types.length_le
  rw [hsymbols, hnodes]

end Within

/-- Entering a type only adds to the tables. -/
theorem within_enter (node : TypeNode) (t : Tables) : t.Within (enter node t).2 :=
  ⟨List.prefix_refl _, t.types.prefix_intern node⟩

/-- Entering a symbol with its type only adds to the tables. -/
theorem within_enterSymbol (qualifiedName module : String) (kind : SymbolKind)
    (node : SymbolId → TypeNode) (t : Tables) :
    t.Within (enterSymbol qualifiedName module kind node t).2 :=
  ⟨t.symbols.prefix_intern qualifiedName module kind, t.types.prefix_intern _⟩

end Tables

variable {α β : Type}

/-! ## One run -/

/-- The step only adds to the tables, keeps the invariant, and its result has the property. -/
def Ensures (I : Tables → Prop) (P : Tables → α → Prop) (step : StateM Tables α) : Prop :=
  ∀ t, I t → t.Within (step t).2 ∧ I (step t).2 ∧ P (step t).2 (step t).1

/-- What stays true while the tables grow. -/
def Lasting (P : Tables → Prop) : Prop :=
  ∀ s t : Tables, s.Within t → P s → P t

section Ensures

variable {I J : Tables → Prop} {P P' : Tables → α → Prop} {Q : Tables → β → Prop}

/-- What a step ensures may be weakened. -/
theorem Ensures.imp {step : StateM Tables α} (h : Ensures I P step)
    (himp : ∀ t a, P t a → P' t a) : Ensures I P' step := by
  intro t ht
  obtain ⟨hwithin, hI, hP⟩ := h t ht
  exact ⟨hwithin, hI, himp _ _ hP⟩

/-- What lasts is kept beside the invariant. -/
theorem Ensures.keep {step : StateM Tables α} (h : Ensures I P step) (hJ : Lasting J) :
    Ensures (fun t => I t ∧ J t) (fun t a => J t ∧ P t a) step := by
  rintro t ⟨hI, ht⟩
  obtain ⟨hwithin, hI', hP⟩ := h t hI
  have hJ' := hJ _ _ hwithin ht
  exact ⟨hwithin, ⟨hI', hJ'⟩, hJ', hP⟩

/-- A step that enters nothing ensures what the invariant says of its result. -/
theorem ensures_pure {a : α} (h : ∀ t, I t → P t a) : Ensures I P (pure a) :=
  fun t ht => ⟨.refl t, ht, h t ht⟩

/-- Of two steps, the second may rely on what the first ensures. -/
theorem Ensures.bind {step : StateM Tables α} {next : α → StateM Tables β} (h : Ensures I P step)
    (hnext : ∀ a, Ensures (fun t => I t ∧ P t a) Q (next a)) : Ensures I Q (step >>= next) := by
  intro t ht
  obtain ⟨hfirst, hI, hP⟩ := h t ht
  obtain ⟨hsecond, ⟨hI', -⟩, hQ⟩ := hnext (step t).1 (step t).2 ⟨hI, hP⟩
  exact ⟨hfirst.trans hsecond, hI', hQ⟩

/-- Steps for the elements of a list, each with a lasting property of its result. -/
theorem Ensures.mapM {R : α → Tables → β → Prop} (hR : ∀ a b, Lasting fun t => R a t b)
    {f : α → StateM Tables β} {as : List α} (h : ∀ a ∈ as, Ensures I (R a) (f a)) :
    Ensures I (fun t bs => List.Forall₂ (fun a b => R a t b) as bs) (as.mapM f) := by
  induction as with
  | nil => exact ensures_pure fun _ _ => .nil
  | cons a as ih =>
      rw [List.mapM_cons]
      obtain ⟨ha, has⟩ := List.forall_mem_cons.1 h
      refine ha.bind fun b => ((ih has).keep (hR a b)).bind fun bs => ensures_pure ?_
      rintro t ⟨-, hb, hbs⟩
      exact .cons hb hbs

end Ensures

/-! ## Runs after one another -/

/-- After a run of the step, every further run gives the same result and adds nothing. -/
def Settles (step : StateM Tables α) : Prop :=
  ∀ s, s.Within (step s).2 ∧ ∀ t, (step s).2.Within t → step t = ((step s).1, t)

section Settles

variable {t : Tables}

/-- A step that settles has only added to the tables. -/
theorem Settles.ensures {step : StateM Tables α} (h : Settles step) :
    Ensures (fun _ => True) (fun _ _ => True) step :=
  fun t _ => ⟨(h t).1, trivial, trivial⟩

theorem settles_pure (a : α) : Settles (pure a : StateM Tables α) :=
  fun s => ⟨.refl s, fun _ _ => rfl⟩

/-- Two steps settle if each does: a second run of the first gives the result that the first run of
the second started from. -/
theorem Settles.bind {step : StateM Tables α} {next : α → StateM Tables β} (h : Settles step)
    (hnext : ∀ a, Settles (next a)) : Settles (step >>= next) := by
  intro s
  obtain ⟨hfirst, hagain⟩ := h s
  obtain ⟨hsecond, hagain'⟩ := hnext (step s).1 (step s).2
  refine ⟨hfirst.trans hsecond, fun t ht => ?_⟩
  show next (step t).1 (step t).2 = _
  rw [hagain t (hsecond.trans ht)]
  exact hagain' t ht

/-- Steps for the elements of a list settle if all of them do. -/
theorem Settles.mapM {f : α → StateM Tables β} (h : ∀ a, Settles (f a)) (as : List α) :
    Settles (as.mapM f) := by
  induction as with
  | nil => exact settles_pure []
  | cons a as ih =>
      rw [List.mapM_cons]
      exact (h a).bind fun b => ih.bind fun bs => settles_pure (b :: bs)

/-- A type that is entered a second time is found. -/
theorem settles_enter (node : TypeNode) : Settles (Tables.enter node) := by
  intro s
  refine ⟨Tables.within_enter node s, fun t ht => ?_⟩
  rw [Tables.enter, TypeTable.intern_of_extends ht.types]
  rfl

/-- A symbol and its type that are entered a second time are found. -/
theorem settles_enterSymbol (qualifiedName module : String) (kind : SymbolKind)
    (node : SymbolId → TypeNode) :
    Settles (Tables.enterSymbol qualifiedName module kind node) := by
  intro s
  refine ⟨Tables.within_enterSymbol qualifiedName module kind node s, fun t ht => ?_⟩
  rw [Tables.enterSymbol, SymbolTable.intern_of_extends ht.symbols]
  exact (settles_enter _ { s with symbols := _ }).2 t ht

/-- A sequence that adds nothing consists of steps that add nothing. -/
theorem exists_of_bind_settled {step : StateM Tables α} {next : α → StateM Tables β} {b : β}
    (hstep : Settles step) (hnext : ∀ a, Settles (next a)) (h : (step >>= next) t = (b, t)) :
    ∃ a, step t = (a, t) ∧ next a t = (b, t) := by
  -- the tables after the first step lie between those before it and those at the end
  have hrun : next (step t).1 (step t).2 = (b, t) := h
  have hsecond := (hnext (step t).1 (step t).2).1
  rw [hrun] at hsecond
  have htables : (step t).2 = t := hsecond.antisymm (hstep t).1
  rw [htables] at hrun
  exact ⟨(step t).1, Prod.ext rfl htables, hrun⟩

/-- Where steps for a list add nothing, none of them does, and each gives its own result. -/
theorem forall₂_of_mapM_settled {f : α → StateM Tables β} (hf : ∀ a, Settles (f a)) {as : List α}
    {bs : List β} (h : as.mapM f t = (bs, t)) : List.Forall₂ (fun a b => f a t = (b, t)) as bs := by
  induction as generalizing bs with
  | nil =>
      obtain rfl : [] = bs := congrArg Prod.fst h
      exact .nil
  | cons a as ih =>
      rw [List.mapM_cons] at h
      obtain ⟨b, hb, h⟩ := exists_of_bind_settled (hf a)
        (fun b => (Settles.mapM hf as).bind fun bs => settles_pure (b :: bs)) h
      obtain ⟨bs', hbs, h⟩ := exists_of_bind_settled (Settles.mapM hf as)
        (fun bs => settles_pure (b :: bs)) h
      obtain rfl : b :: bs' = bs := congrArg Prod.fst h
      exact .cons hb (ih hbs)

end Settles

end CallFill
