import CallFill.Proofs.Synthesis.Bounds

/-!
# Raising the bound only refines

A bound on the levels, and the decision not to write records out, cut parts of a term off and put
the sentinel in their place; nothing else in the term depends on them. So a term under a lower bound
is the term under a higher one with parts cut off (`Term.Refines`), and a term that one level more
does not change is changed by no number of levels (`settled_termWithin`).

The one rule that looks at a cut-off part is that of a field with an alias: where the field's value
is the sentinel, the alias is written around it. A host may not say this of a field of any other
type than the alias itself (`Host.AliasFields`), or else the alias vanishes as soon as there are
enough levels to write the field's type (`mislabelled`).
-/

namespace CallFill

namespace Term

mutual

/-- Whether a term is another with parts cut off: it is the sentinel, or both have one head, and
their parts are related pairwise. -/
def Refines : Term → Term → Prop
  | sentinel, _ => True
  | call name, call name' => name = name'
  | placeholder name, placeholder name' => name = name'
  | record name fields, record name' fields' => name = name' ∧ RefinesFields fields fields'
  | list item, list item' => Refines item item'
  | set item, set item' => Refines item item'
  | tuple items, tuple items' => RefinesItems items items'
  | dict key value, dict key' value' => Refines key key' ∧ Refines value value'
  | _, _ => False

/-- Whether the fields of two records have the same names and values that are related pairwise. -/
def RefinesFields : List (String × Term) → List (String × Term) → Prop
  | [], [] => True
  | (name, t) :: fields, (name', t') :: fields' =>
    name = name' ∧ Refines t t' ∧ RefinesFields fields fields'
  | _, _ => False

/-- Whether two lists of terms are of one length and related pairwise. -/
def RefinesItems : List Term → List Term → Prop
  | [], [] => True
  | t :: items, t' :: items' => Refines t t' ∧ RefinesItems items items'
  | _, _ => False

end

mutual

theorem refines_refl (t : Term) : t.Refines t := by
  cases t with
  | sentinel => trivial
  | call name => rfl
  | placeholder name => rfl
  | record name fields => exact ⟨rfl, refinesFields_refl fields⟩
  | list item => exact refines_refl item
  | set item => exact refines_refl item
  | tuple items => exact refinesItems_refl items
  | dict key value => exact ⟨refines_refl key, refines_refl value⟩

theorem refinesFields_refl (fields : List (String × Term)) : RefinesFields fields fields := by
  match fields with
  | [] => trivial
  | (name, t) :: fields => exact ⟨rfl, refines_refl t, refinesFields_refl fields⟩

theorem refinesItems_refl (items : List Term) : RefinesItems items items := by
  match items with
  | [] => trivial
  | t :: items => exact ⟨refines_refl t, refinesItems_refl items⟩

end

/-- Fields of the same names refine each other if their values do. -/
theorem refinesFields_map {α : Type} {name : α → String} {t t' : α → Term} {as : List α}
    (h : ∀ a ∈ as, (t a).Refines (t' a)) :
    RefinesFields (as.map fun a => (name a, t a)) (as.map fun a => (name a, t' a)) := by
  induction as with
  | nil => trivial
  | cons a as ih =>
      exact ⟨rfl, h a List.mem_cons_self, ih fun b hb => h b (List.mem_cons_of_mem a hb)⟩

/-- Items made of the same elements refine each other if they do one by one. -/
theorem refinesItems_map {α : Type} {t t' : α → Term} {as : List α}
    (h : ∀ a ∈ as, (t a).Refines (t' a)) : RefinesItems (as.map t) (as.map t') := by
  induction as with
  | nil => trivial
  | cons a as ih =>
      exact ⟨h a List.mem_cons_self, ih fun b hb => h b (List.mem_cons_of_mem a hb)⟩

end Term

/-- A field of a record names an alias only if its type is that alias. -/
def Host.AliasFields (h : Host) : Prop :=
  ∀ type symbol fields, h.shape type = .record symbol fields →
    ∀ f ∈ fields, ∀ id, f.aliasSymbol = some id → ∃ name, h.shape f.type = .typeAlias (some id) name

namespace Synthesis

variable (s : Synthesis)

/-- The synthesis with another level bound, and with records written out or not. -/
def bounded (m : Nat) (recursive : Bool) : Synthesis :=
  { s with
    config := { s.config with maxDepth := m }
    options := { s.options with recursive } }

variable {m m' : Nat} {r r' : Bool}

@[simp] theorem host_bounded : (s.bounded m r).host = s.host := rfl

@[simp] theorem reference_bounded : (s.bounded m r).reference = s.reference := rfl

@[simp] theorem aliasTerm_bounded : (s.bounded m r).aliasTerm = s.aliasTerm := rfl

@[simp] theorem fieldTerm_bounded : (s.bounded m r).fieldTerm = s.fieldTerm := rfl

@[simp] theorem aliasValue_bounded : (s.bounded m r).aliasValue = s.aliasValue := rfl

@[simp] theorem fieldValue_bounded : (s.bounded m r).fieldValue = s.fieldValue := rfl

/-! ## The bound is the number of levels -/

@[simp] theorem leaf?_bounded : (s.bounded m r).leaf? = s.leaf? := rfl

/-- The bound is not looked at by the rules: it gives the number of levels, and nothing else. -/
theorem termWithin_bounded (m m' : Nat) (r : Bool) (levels : Nat) :
    (s.bounded m r).termWithin levels = (s.bounded m' r).termWithin levels := by
  induction levels with
  | zero => rfl
  | succ levels ih =>
      funext type existing
      rw [termWithin_succ, termWithin_succ, ih]
      rfl

/-- The value within a number of levels does not depend on the bound that it is taken under. -/
theorem valueWithin_bounded (m m' : Nat) (r : Bool) (levels : Nat) :
    (s.bounded m r).valueWithin levels = (s.bounded m' r).valueWithin levels := by
  induction levels with
  | zero => rfl
  | succ levels ih =>
      funext type existing
      rw [valueWithin_succ, valueWithin_succ, ih]
      rfl

/-! ## Fields with an alias -/

variable {s} {f : Field} {id : SymbolId} {name : String} {type : TypeId}

/-- A field without an alias takes a term as it is. -/
theorem fieldTerm_of_none (h : f.aliasSymbol = none) (t : Term) : s.fieldTerm f t = t := by
  rw [fieldTerm, h]
  split
  · rfl
  · rfl

theorem fieldValue_of_none (h : f.aliasSymbol = none) (v : Value) : s.fieldValue f v = v := by
  rw [fieldValue, h]
  split
  · rfl
  · rfl

/-- An alias is written as a placeholder or not at all. -/
theorem aliasTerm?_cases (s : Synthesis) (id : SymbolId) :
    (s.aliasTerm? id = none ∧ s.aliasWrap id = none) ∨
    ∃ name, s.aliasTerm? id = some (.placeholder name) ∧
      s.aliasWrap id = some { text := aliasPlaceholder name, symbols := [id] } := by
  rw [aliasTerm?, aliasWrap]
  cases s.reference id with
  | none => exact Or.inl ⟨rfl, rfl⟩
  | some name =>
      dsimp only
      by_cases hbuiltin : s.config.isBuiltinName name = true
      · rw [if_pos hbuiltin, if_pos hbuiltin]
        exact Or.inl ⟨rfl, rfl⟩
      · rw [if_neg hbuiltin, if_neg hbuiltin]
        exact Or.inr ⟨name, rfl, rfl⟩

/-- A type that is an alias is cut off or written as the alias; around either, the field's own alias
makes the same term. -/
theorem fieldTerm_of_alias (hf : f.aliasSymbol = some id) {t : Term}
    (ht : t = .sentinel ∨ t = s.aliasTerm (some id) name) :
    s.fieldTerm f t = (s.aliasTerm? id).getD .sentinel := by
  have hsentinel : s.fieldTerm f .sentinel = (s.aliasTerm? id).getD .sentinel := by
    rw [fieldTerm, hf]
    rfl
  rcases ht with rfl | rfl
  · exact hsentinel
  · rw [aliasTerm]
    split
    · exact hsentinel
    · rcases s.aliasTerm?_cases id with ⟨hterm, -⟩ | ⟨shown, hterm, -⟩
      · rw [hterm] at hsentinel ⊢
        exact hsentinel
      · rw [hterm]
        rfl

/-- A field whose type is an alias writes the alias once, whether the levels reach its type or not.
-/
theorem fieldValue_of_alias (hf : f.aliasSymbol = some id) {v : Value}
    (hv : v = .unknown ∨ v = s.aliasValue (some id) name) :
    s.fieldValue f v = (s.aliasWrap id).getD .unknown := by
  have hunknown : s.fieldValue f .unknown = (s.aliasWrap id).getD .unknown := by
    rw [fieldValue, hf]
    rfl
  rcases hv with rfl | rfl
  · exact hunknown
  · rw [aliasValue]
    split
    · exact hunknown
    · rcases s.aliasTerm?_cases id with ⟨hterm, hwrap⟩ | ⟨shown, hterm, hwrap⟩
      · rw [hwrap] at hunknown ⊢
        exact hunknown
      · have hplaceholder : (Value.isSentinel
            { text := aliasPlaceholder shown, symbols := [id] }) = false :=
          isSentinel_eq _ (.placeholder shown) rfl
        rw [hwrap, Option.getD_some, fieldValue, hplaceholder]
        rfl

/-- At the type of an alias stands the alias, or the sentinel where no level is left. -/
theorem termWithin_of_alias (h : s.host.shape type = .typeAlias (some id) name) (levels : Nat)
    (existing : Option String) :
    s.termWithin levels type existing = .sentinel ∨
      s.termWithin levels type existing = s.aliasTerm (some id) name := by
  cases levels with
  | zero => exact Or.inl rfl
  | succ levels =>
      refine Or.inr ?_
      rw [termWithin_succ, leaf?, h]
      show s.atomTerm (s.termWithin levels) type = _
      rw [atomTerm, h]

theorem valueWithin_of_alias (h : s.host.shape type = .typeAlias (some id) name) (levels : Nat)
    (existing : Option String) :
    s.valueWithin levels type existing = .unknown ∨
      s.valueWithin levels type existing = s.aliasValue (some id) name := by
  cases levels with
  | zero => exact Or.inl rfl
  | succ levels =>
      refine Or.inr ?_
      rw [valueWithin_succ, leaf?, h]
      show s.atomValue (s.valueWithin levels) type = _
      rw [atomValue, h]

/-! ## More levels, and records written out -/

/-- A term has parts where the other is cut off, and its value needs the symbols of the other's. -/
structure Grows (t t' : Term) (symbols symbols' : List SymbolId) : Prop where
  refines : t.Refines t'
  subset : symbols ⊆ symbols'

theorem grows_refl (t : Term) (symbols : List SymbolId) : Grows t t symbols symbols :=
  ⟨t.refines_refl, List.Subset.refl symbols⟩

/-- In the place of a sentinel anything may stand, with any symbols. -/
theorem grows_sentinel (t : Term) (symbols : List SymbolId) : Grows .sentinel t [] symbols :=
  ⟨trivial, List.nil_subset symbols⟩

/-- Where the parts of a list grow, so do the symbols they need together. -/
theorem foldl_mergeSymbols_subset {α : Type} {needs needs' : α → List SymbolId} {as : List α}
    (h : ∀ a ∈ as, needs a ⊆ needs' a) (symbols : List SymbolId) :
    as.foldl (fun acc a => mergeSymbols acc (needs a)) symbols ⊆
      as.foldl (fun acc a => mergeSymbols acc (needs' a)) symbols := by
  intro id hid
  rw [mem_foldl_mergeSymbols] at hid ⊢
  rcases hid with hid | ⟨a, ha, hid⟩
  · exact Or.inl hid
  · exact Or.inr ⟨a, ha, h a ha hid⟩

section Grows

variable {term term' : TypeId → Option String → Term}
  {value value' : TypeId → Option String → Value}

/-- A collection grows if its elements do. -/
theorem grows_collectionTerm
    (hbelow : ∀ t e, Grows (term t e) (term' t e) (value t e).symbols (value' t e).symbols)
    (kind : CollectionKind) (elements : List TypeId) :
    Grows (collectionTerm term kind elements) (collectionTerm term' kind elements)
      (collectionValue value kind elements).symbols
      (collectionValue value' kind elements).symbols := by
  match kind, elements with
  | .list, item :: _ => exact ⟨(hbelow item none).refines, (hbelow item none).subset⟩
  | .set, item :: _ => exact ⟨(hbelow item none).refines, (hbelow item none).subset⟩
  | .tuple, [item] => exact ⟨⟨(hbelow item none).refines, trivial⟩, (hbelow item none).subset⟩
  | .tuple, a :: b :: rest =>
      constructor
      · show Term.RefinesItems ((a :: b :: rest).map (term · none))
          ((a :: b :: rest).map (term' · none))
        exact Term.refinesItems_map fun item _ => (hbelow item none).refines
      · simp only [collectionValue, List.foldl_map]
        exact foldl_mergeSymbols_subset (fun item _ => (hbelow item none).subset) []
  | .dict, key :: item :: _ =>
      refine ⟨⟨(hbelow key none).refines, (hbelow item none).refines⟩, ?_⟩
      intro id hid
      simp only [collectionValue, mem_mergeSymbols] at hid ⊢
      rcases hid with (hid | hid) | hid
      · exact Or.inl (Or.inl hid)
      · exact Or.inl (Or.inr ((hbelow key none).subset hid))
      · exact Or.inr ((hbelow item none).subset hid)
  | .list, [] | .set, [] | .tuple, [] | .dict, [] | .dict, [_] | .other, _ =>
      exact grows_sentinel .sentinel []

/-- A record grows if its fields do, and may be expanded where it was not before. -/
theorem grows_recordTerm (hr : r = true → r' = true) (symbol : SymbolId) {fields : List Field}
    (hfield : ∀ f ∈ fields,
      Grows (s.fieldTerm f (term f.type f.defaultText)) (s.fieldTerm f (term' f.type f.defaultText))
        (s.fieldValue f (value f.type f.defaultText)).symbols
        (s.fieldValue f (value' f.type f.defaultText)).symbols) :
    Grows ((s.bounded m r).recordTerm term symbol fields)
      ((s.bounded m' r').recordTerm term' symbol fields)
      ((s.bounded m r).recordValue value symbol fields).symbols
      ((s.bounded m' r').recordValue value' symbol fields).symbols := by
  rw [recordTerm, recordValue]
  by_cases hflat : (!(s.bounded m r).options.recursive || fields.isEmpty) = true
  · rw [if_pos hflat, if_pos hflat]
    exact grows_sentinel _ _
  · have hflat' : ¬(!(s.bounded m' r').options.recursive || fields.isEmpty) = true := by
      simp only [bounded, Bool.or_eq_true, Bool.not_eq_true', not_or, Bool.not_eq_false] at hflat ⊢
      exact ⟨hr hflat.1, hflat.2⟩
    rw [if_neg hflat, if_neg hflat, recordTerm, recordValue, if_neg hflat', if_neg hflat']
    simp only [reference_bounded, fieldTerm_bounded, fieldValue_bounded]
    cases s.reference symbol with
    | none => exact grows_refl _ _
    | some name =>
        constructor
        · exact ⟨rfl, Term.refinesFields_map fun f hf => (hfield f hf).refines⟩
        · simp only [List.foldl_map]
          exact foldl_mergeSymbols_subset (fun f hf => (hfield f hf).subset) [symbol]

/-- What is written for a type that is no union grows if what stands below it does. -/
theorem grows_atomTerm (hr : r = true → r' = true)
    (hbelow : ∀ t e, Grows (term t e) (term' t e) (value t e).symbols (value' t e).symbols)
    (hfield : ∀ symbol fields, s.host.shape type = .record symbol fields → ∀ f ∈ fields,
      Grows (s.fieldTerm f (term f.type f.defaultText)) (s.fieldTerm f (term' f.type f.defaultText))
        (s.fieldValue f (value f.type f.defaultText)).symbols
        (s.fieldValue f (value' f.type f.defaultText)).symbols) :
    Grows ((s.bounded m r).atomTerm term type) ((s.bounded m' r').atomTerm term' type)
      ((s.bounded m r).atomValue value type).symbols
      ((s.bounded m' r').atomValue value' type).symbols := by
  simp only [atomTerm, atomValue, host_bounded]
  cases hshape : s.host.shape type with
  | record symbol fields => exact grows_recordTerm hr symbol (hfield symbol fields hshape)
  | collection kind elements => exact grows_collectionTerm hbelow kind elements
  | _ => exact grows_refl _ _

end Grows

/-! ## What one level more does not change -/

/-- If one level more does not change a term, then the term and the value with some other number of
levels are the same. -/
def Settled (t next later : Term) (v vLater : Value) : Prop :=
  t = next → later = t ∧ vLater = v

/-- A term that is never written otherwise is settled. -/
theorem settled_fixed (t next : Term) (v : Value) : Settled t next t v v :=
  fun _ => ⟨rfl, rfl⟩

/-- A collection is the sentinel where it lacks elements or has no literal. -/
theorem collection_of_sentinel {term : TypeId → Option String → Term} {kind : CollectionKind}
    {elements : List TypeId} (h : collectionTerm term kind elements = .sentinel)
    (term' : TypeId → Option String → Term) (value' : TypeId → Option String → Value) :
    collectionTerm term' kind elements = .sentinel ∧
      collectionValue value' kind elements = .unknown := by
  match kind, elements with
  | .list, item :: _ => exact Term.noConfusion h
  | .set, item :: _ => exact Term.noConfusion h
  | .tuple, [item] => exact Term.noConfusion h
  | .tuple, a :: b :: rest => exact Term.noConfusion h
  | .dict, key :: item :: _ => exact Term.noConfusion h
  | .list, [] | .set, [] | .tuple, [] | .dict, [] | .dict, [_] | .other, _ => exact ⟨rfl, rfl⟩

/-- A type that is no union is the sentinel by its own nature: with other parts it is so, too. -/
theorem atom_of_sentinel {term : TypeId → Option String → Term}
    (h : s.atomTerm term type = .sentinel) (term' : TypeId → Option String → Term)
    (value' : TypeId → Option String → Value) :
    s.atomTerm term' type = .sentinel ∧ s.atomValue value' type = .unknown := by
  rw [atomTerm] at h
  rw [atomTerm, atomValue]
  -- a sentinel comes from the options, from the name of a builtin or from a missing name: all of
  -- this is decided before any part is looked at
  cases hshape : s.host.shape type with
  | record symbol fields =>
      rw [hshape] at h
      simp only [recordTerm, recordValue] at h ⊢
      split at h
      · next hflat => exact ⟨if_pos hflat, if_pos hflat⟩
      · next hflat =>
          rw [if_neg hflat, if_neg hflat]
          cases hname : s.reference symbol with
          | none => exact ⟨rfl, rfl⟩
          | some name =>
              rw [hname] at h
              exact Term.noConfusion h
  | collection kind elements =>
      rw [hshape] at h
      exact collection_of_sentinel h term' value'
  | builtin symbol name =>
      rw [hshape] at h
      simp only [builtinTerm, builtinValue] at h ⊢
      split at h
      · next hno => exact ⟨if_pos hno, if_pos hno⟩
      · exact Term.noConfusion h
  | typeAlias symbol name =>
      rw [hshape] at h
      refine ⟨h, ?_⟩
      simp only [aliasTerm, aliasValue] at h ⊢
      split at h
      · next hbuiltin => exact if_pos hbuiltin
      · next hbuiltin =>
          rw [if_neg hbuiltin]
          cases symbol with
          | none => exact Term.noConfusion h
          | some id =>
              rcases s.aliasTerm?_cases id with ⟨-, hwrap⟩ | ⟨shown, hterm, -⟩
              · simp only [hwrap, Option.getD_none]
              · simp only [hterm, Option.getD_some] at h
                exact Term.noConfusion h
  | plain symbol =>
      rw [hshape] at h
      refine ⟨h, ?_⟩
      simp only [plainTerm, plainValue, reference] at h ⊢
      split at h
      · next hno => exact if_pos hno
      · next hno =>
          rw [if_neg hno]
          cases halias : s.host.visibleAlias s.file symbol with
          | some name =>
              rw [halias] at h
              exact Term.noConfusion h
          | none =>
              cases hsymbol : s.host.symbol symbol with
              | none => rfl
              | some sym =>
                  rw [halias, hsymbol] at h
                  exact Term.noConfusion h
  | union members => exact ⟨rfl, rfl⟩
  | literal => exact ⟨rfl, rfl⟩
  | anyLike name => exact ⟨rfl, rfl⟩
  | noneType => exact ⟨rfl, rfl⟩
  | unknown => exact ⟨rfl, rfl⟩

section Settled

variable {term next later : TypeId → Option String → Term}
  {value vLater : TypeId → Option String → Value}

/-- A collection is settled if its elements are. -/
theorem settled_collectionTerm
    (hbelow : ∀ t e, Settled (term t e) (next t e) (later t e) (value t e) (vLater t e))
    (kind : CollectionKind) (elements : List TypeId) :
    Settled (collectionTerm term kind elements) (collectionTerm next kind elements)
      (collectionTerm later kind elements) (collectionValue value kind elements)
      (collectionValue vLater kind elements) := by
  match kind, elements with
  | .list, item :: _ =>
      intro h
      obtain ⟨hterm, hvalue⟩ := hbelow item none (Term.list.inj h)
      simp only [collectionTerm, collectionValue, hterm, hvalue, and_self]
  | .set, item :: _ =>
      intro h
      obtain ⟨hterm, hvalue⟩ := hbelow item none (Term.set.inj h)
      simp only [collectionTerm, collectionValue, hterm, hvalue, and_self]
  | .tuple, [item] =>
      intro h
      obtain ⟨hterm, hvalue⟩ := hbelow item none (List.cons.inj (Term.tuple.inj h)).1
      simp only [collectionTerm, collectionValue, hterm, hvalue, and_self]
  | .tuple, a :: b :: rest =>
      intro h
      have hsame := List.map_inj_left.1 (Term.tuple.inj h)
      have hterms : (a :: b :: rest).map (later · none) = (a :: b :: rest).map (term · none) :=
        List.map_inj_left.2 fun item hitem => (hbelow item none (hsame item hitem)).1
      have hvalues : (a :: b :: rest).map (vLater · none) = (a :: b :: rest).map (value · none) :=
        List.map_inj_left.2 fun item hitem => (hbelow item none (hsame item hitem)).2
      simp only [collectionTerm, collectionValue, hterms, hvalues, and_self]
  | .dict, key :: item :: _ =>
      intro h
      obtain ⟨hkey, hitem⟩ := Term.dict.inj h
      obtain ⟨hkeyTerm, hkeyValue⟩ := hbelow key none hkey
      obtain ⟨hitemTerm, hitemValue⟩ := hbelow item none hitem
      simp only [collectionTerm, collectionValue, hkeyTerm, hkeyValue, hitemTerm, hitemValue,
        and_self]
  | .list, [] | .set, [] | .tuple, [] | .dict, [] | .dict, [_] | .other, _ =>
      exact settled_fixed .sentinel .sentinel .unknown

/-- A record is settled if its fields are. -/
theorem settled_recordTerm (symbol : SymbolId) {fields : List Field}
    (hfield : ∀ f ∈ fields,
      Settled (s.fieldTerm f (term f.type f.defaultText))
        (s.fieldTerm f (next f.type f.defaultText)) (s.fieldTerm f (later f.type f.defaultText))
        (s.fieldValue f (value f.type f.defaultText))
        (s.fieldValue f (vLater f.type f.defaultText))) :
    Settled (s.recordTerm term symbol fields) (s.recordTerm next symbol fields)
      (s.recordTerm later symbol fields) (s.recordValue value symbol fields)
      (s.recordValue vLater symbol fields) := by
  simp only [recordTerm, recordValue]
  split
  · exact settled_fixed _ _ _
  · cases s.reference symbol with
    | none => exact settled_fixed _ _ _
    | some name =>
        intro h
        have hsame := List.map_inj_left.1 (Term.record.inj h).2
        have hall := fun f hf => hfield f hf (Prod.mk.inj (hsame f hf)).2
        have hterms : (fields.map fun f => (f.name, s.fieldTerm f (later f.type f.defaultText))) =
            fields.map fun f => (f.name, s.fieldTerm f (term f.type f.defaultText)) :=
          List.map_inj_left.2 fun f hf => by rw [(hall f hf).1]
        have hvalues :
            (fields.map fun f => (f.name, s.fieldValue f (vLater f.type f.defaultText))) =
              fields.map fun f => (f.name, s.fieldValue f (value f.type f.defaultText)) :=
          List.map_inj_left.2 fun f hf => by rw [(hall f hf).2]
        simp only [hterms, hvalues, and_self]

/-- What is written for a type that is no union is settled if what stands below it is. -/
theorem settled_atomTerm
    (hbelow : ∀ t e, Settled (term t e) (next t e) (later t e) (value t e) (vLater t e))
    (hfield : ∀ symbol fields, s.host.shape type = .record symbol fields → ∀ f ∈ fields,
      Settled (s.fieldTerm f (term f.type f.defaultText))
        (s.fieldTerm f (next f.type f.defaultText)) (s.fieldTerm f (later f.type f.defaultText))
        (s.fieldValue f (value f.type f.defaultText))
        (s.fieldValue f (vLater f.type f.defaultText))) :
    Settled (s.atomTerm term type) (s.atomTerm next type) (s.atomTerm later type)
      (s.atomValue value type) (s.atomValue vLater type) := by
  simp only [atomTerm, atomValue]
  cases hshape : s.host.shape type with
  | record symbol fields => exact settled_recordTerm symbol (hfield symbol fields hshape)
  | collection kind elements => exact settled_collectionTerm hbelow kind elements
  | _ => exact settled_fixed _ _ _

end Settled

section AliasFields

variable (hfields : s.host.AliasFields)

include hfields

/-- With more levels, and with records written out, a term only gets parts where it was cut off. -/
theorem grows_termWithin (hr : r = true → r' = true) {levels levels' : Nat}
    (hle : levels ≤ levels') (type : TypeId) (existing : Option String) :
    Grows ((s.bounded m r).termWithin levels type existing)
      ((s.bounded m' r').termWithin levels' type existing)
      ((s.bounded m r).valueWithin levels type existing).symbols
      ((s.bounded m' r').valueWithin levels' type existing).symbols := by
  induction levels generalizing levels' type existing with
  | zero => exact grows_sentinel _ _
  | succ levels ih =>
      obtain ⟨levels', rfl⟩ := Nat.exists_eq_add_of_le' (Nat.le_of_add_left_le hle)
      have hbelow := fun t e => ih (Nat.le_of_succ_le_succ hle) t e
      rw [termWithin_succ, termWithin_succ, valueWithin_succ, valueWithin_succ, leaf?_bounded,
        leaf?_bounded]
      cases s.leaf? type existing with
      | none => exact grows_sentinel _ _
      | some leaf =>
          refine grows_atomTerm hr hbelow fun symbol fields hshape f hf => ?_
          cases halias : f.aliasSymbol with
          | none =>
              simp only [fieldTerm_of_none halias, fieldValue_of_none halias]
              exact hbelow f.type f.defaultText
          | some id =>
              -- the alias is written around the field with any number of levels
              obtain ⟨name, htype⟩ := hfields leaf symbol fields hshape f hf id halias
              have hterm : ∀ m r n,
                  s.fieldTerm f ((s.bounded m r).termWithin n f.type f.defaultText) =
                    (s.aliasTerm? id).getD .sentinel := by
                intro m r n
                have hcut := termWithin_of_alias (s := s.bounded m r) htype n f.defaultText
                rw [aliasTerm_bounded] at hcut
                exact fieldTerm_of_alias halias hcut
              have hvalue : ∀ m r n,
                  s.fieldValue f ((s.bounded m r).valueWithin n f.type f.defaultText) =
                    (s.aliasWrap id).getD .unknown := by
                intro m r n
                have hcut := valueWithin_of_alias (s := s.bounded m r) htype n f.defaultText
                rw [aliasValue_bounded] at hcut
                exact fieldValue_of_alias halias hcut
              rw [hterm, hterm, hvalue, hvalue]
              exact grows_refl _ _

/-- A term that one level more does not change is changed by no number of levels. -/
theorem settled_termWithin {levels later : Nat} (hle : levels ≤ later) (type : TypeId)
    (existing : Option String) :
    Settled (s.termWithin levels type existing) (s.termWithin (levels + 1) type existing)
      (s.termWithin later type existing) (s.valueWithin levels type existing)
      (s.valueWithin later type existing) := by
  induction levels generalizing later type existing with
  | zero =>
      cases later with
      | zero => exact settled_fixed _ _ _
      | succ later =>
          simp only [termWithin_succ, valueWithin_succ]
          cases s.leaf? type existing with
          | none => exact settled_fixed .sentinel .sentinel .unknown
          | some leaf =>
              intro h
              -- without levels all is cut off, so a term that stays is the sentinel with one level,
              -- too
              exact atom_of_sentinel h.symm (s.termWithin later) (s.valueWithin later)
  | succ levels ih =>
      obtain ⟨later, rfl⟩ := Nat.exists_eq_add_of_le' (Nat.le_of_add_left_le hle)
      have hbelow := fun t e => ih (Nat.le_of_succ_le_succ hle) t e
      rw [termWithin_succ, termWithin_succ, termWithin_succ, valueWithin_succ, valueWithin_succ]
      cases s.leaf? type existing with
      | none => exact settled_fixed .sentinel .sentinel .unknown
      | some leaf =>
          refine settled_atomTerm hbelow fun symbol fields hshape f hf => ?_
          -- the type of a field with an alias need not be settled: the alias is written either way
          cases halias : f.aliasSymbol with
          | none =>
              simp only [fieldTerm_of_none halias, fieldValue_of_none halias]
              exact hbelow f.type f.defaultText
          | some id =>
              obtain ⟨name, htype⟩ := hfields leaf symbol fields hshape f hf id halias
              rw [fieldTerm_of_alias halias (termWithin_of_alias htype levels f.defaultText),
                fieldTerm_of_alias halias (termWithin_of_alias htype later f.defaultText),
                fieldValue_of_alias halias (valueWithin_of_alias htype levels f.defaultText),
                fieldValue_of_alias halias (valueWithin_of_alias htype later f.defaultText)]
              exact settled_fixed _ _ _

end AliasFields

/-! ## The bound of a synthesis -/

/-- What the bound on the levels and the decision to write records out have to do with the value of
a type: let `T m r` be the value's term with the bound `m` and the decision `r`. -/
structure RefinesWithBound (s : Synthesis) (type : TypeId) (existing : Option String) : Prop where
  /-- The term is that of the value. -/
  text_eq : ∀ m r, ((s.bounded m r).value type 0 existing).text =
    ((s.bounded m r).term type 0 existing).render
  /-- `T m r` is `T m' r` with parts cut off, for every greater bound `m'`. -/
  deeper : ∀ m m' r, m ≤ m' →
    Grows ((s.bounded m r).term type 0 existing) ((s.bounded m' r).term type 0 existing)
      ((s.bounded m r).value type 0 existing).symbols
      ((s.bounded m' r).value type 0 existing).symbols
  /-- `T m false` is `T m true` with parts cut off. -/
  recursive : ∀ m,
    Grows ((s.bounded m false).term type 0 existing) ((s.bounded m true).term type 0 existing)
      ((s.bounded m false).value type 0 existing).symbols
      ((s.bounded m true).value type 0 existing).symbols
  /-- At a depth, as much is written as with a bound that is lower by this depth. -/
  shifted : ∀ m r depth, depth ≤ m →
    (s.bounded m r).term type depth existing = (s.bounded (m - depth) r).term type 0 existing ∧
    (s.bounded m r).value type depth existing = (s.bounded (m - depth) r).value type 0 existing
  /-- If `T m r` is `T (m + 1) r`, it is `T m' r` for every greater bound `m'`. -/
  settled : ∀ m r,
    (s.bounded m r).term type 0 existing = (s.bounded (m + 1) r).term type 0 existing →
      ∀ m', m ≤ m' →
        (s.bounded m' r).term type 0 existing = (s.bounded m r).term type 0 existing ∧
        (s.bounded m' r).value type 0 existing = (s.bounded m r).value type 0 existing

/-- All that was proved of terms, said of the values that are written. -/
theorem refinesWithBound (hfields : s.host.AliasFields) (type : TypeId)
    (existing : Option String) : s.RefinesWithBound type existing where
  text_eq m r := (s.bounded m r).value_text type 0 existing
  deeper m m' r hle :=
    grows_termWithin hfields (fun hr => hr) (Nat.succ_le_succ hle) type existing
  recursive m :=
    grows_termWithin hfields (fun _ => rfl) (Nat.le_refl _) type existing
  shifted m r depth hle := by
    have hlevels : m + 1 - depth = m - depth + 1 - 0 := by omega
    constructor
    · show (s.bounded m r).termWithin (m + 1 - depth) type existing =
        (s.bounded (m - depth) r).termWithin (m - depth + 1 - 0) type existing
      rw [hlevels, s.termWithin_bounded m (m - depth) r]
    · show (s.bounded m r).valueWithin (m + 1 - depth) type existing =
        (s.bounded (m - depth) r).valueWithin (m - depth + 1 - 0) type existing
      rw [hlevels, s.valueWithin_bounded m (m - depth) r]
  settled m r h m' hle := by
    have hsettled := settled_termWithin (s := s.bounded m r) hfields (Nat.succ_le_succ hle) type
      existing
    -- the bounds are levels, so that one synthesis can speak for all
    have hterm : ∀ n, (s.bounded n r).term type 0 existing =
        (s.bounded m r).termWithin (n + 1) type existing :=
      fun n => congrFun (congrFun (s.termWithin_bounded n m r (n + 1)) type) existing
    have hvalue : ∀ n, (s.bounded n r).value type 0 existing =
        (s.bounded m r).valueWithin (n + 1) type existing :=
      fun n => congrFun (congrFun (s.valueWithin_bounded n m r (n + 1)) type) existing
    rw [hterm, hterm] at h
    rw [hterm, hterm, hvalue, hvalue]
    exact hsettled h

/-- A record whose field names an alias, although its type is a list. -/
def mislabelled : Synthesis :=
  { cycle with
    host := { cycle.host with
      shape := fun t =>
        if t.index = 0 then .record ⟨0⟩ [{ name := "r", type := ⟨1⟩, aliasSymbol := some ⟨0⟩ }]
        else .collection .list [⟨1⟩] } }

/-- With the bound 0 the field is written as the alias, and with the bound 1 as a list: such a host
is not one on which raising the bound refines. -/
example : ¬((mislabelled.bounded 0 true).term ⟨0⟩ 0).Refines
    ((mislabelled.bounded 1 true).term ⟨0⟩ 0) := by
  rintro ⟨-, -, hfield, -⟩
  exact hfield

end Synthesis

end CallFill
