import CallFill.Proofs.Synthesis.Term
import CallFill.Proofs.Union.Signature

/-!
# How far a value is written out

Types may refer to each other in circles, so it is not the types that bound a value. A record and a
collection ask for the values of their parts one level deeper, and nothing is written below the
configured level; a union asks for the value of a leaf at its own depth, but a leaf is no union. So
what a value asks for comes earlier in a well-founded order, the rules of writing determine every
value, and its records and brackets nest no deeper than the levels that are left. The alias around a
sentinel may add one more pair of brackets below the last level.
-/

namespace CallFill

/-- Every name that the host gives for writing values has a property. -/
structure Host.Names (h : Host) (P : String → Prop) : Prop where
  symbol : ∀ id sym, h.symbol id = some sym → P sym.name
  visibleAlias : ∀ file id name, h.visibleAlias file id = some name → P name
  field : ∀ t symbol fields, h.shape t = .record symbol fields → ∀ f ∈ fields, P f.name
  builtin : ∀ t symbol name, h.shape t = .builtin symbol name → P name
  typeAlias : ∀ t symbol name, h.shape t = .typeAlias symbol name → P name

/-- The elements whose values stand in the literal of a collection. -/
def CollectionKind.written : CollectionKind → List TypeId → List TypeId
  | .list, item :: _ | .set, item :: _ => [item]
  | .tuple, items => items
  | .dict, key :: value :: _ => [key, value]
  | _, _ => []

/-- The elements written are elements of the collection. -/
theorem CollectionKind.mem_of_mem_written {kind : CollectionKind} {elements : List TypeId}
    {e : TypeId} (h : e ∈ kind.written elements) : e ∈ elements := by
  match kind, elements with
  | .list, item :: rest | .set, item :: rest =>
      exact List.mem_cons.2 (Or.inl (List.mem_singleton.1 h))
  | .tuple, items => exact h
  | .dict, key :: value :: rest => exact List.mem_append_left rest h
  | .list, [] | .set, [] | .dict, [] | .dict, [_] | .other, _ => exact nomatch h

namespace Synthesis

variable (s : Synthesis)

/-! ## The recursion -/

/-- One step of writing a value, where `next` writes the values it asks for: a union asks for its
leaf at the same depth, everything else for its parts one level deeper. -/
def step (next : TypeId → Nat → Option String → Value) (type : TypeId) (depth : Nat)
    (existing : Option String) : Value :=
  if s.config.maxDepth < depth then .unknown
  else
    match s.host.shape type with
    | .union members =>
      match s.pick members existing with
      | some leaf => next leaf depth none
      | none => .unknown
    | _ => s.atomValue (fun t e => next t (depth + 1) e) type

/-- The values that a step asks for: `Asks (part, depth') (whole, depth)`. -/
inductive Asks : TypeId × Nat → TypeId × Nat → Prop where
  | field {t : TypeId} {depth : Nat} {symbol : SymbolId} {fields : List Field} {f : Field} :
      depth ≤ s.config.maxDepth → s.host.shape t = .record symbol fields → f ∈ fields →
      Asks (f.type, depth + 1) (t, depth)
  | element {t e : TypeId} {depth : Nat} {kind : CollectionKind} {elements : List TypeId} :
      depth ≤ s.config.maxDepth → s.host.shape t = .collection kind elements → e ∈ elements →
      Asks (e, depth + 1) (t, depth)
  | leaf {t leaf : TypeId} {depth : Nat} {members : List TypeId} {existing : Option String} :
      depth ≤ s.config.maxDepth → s.host.shape t = .union members →
      s.pick members existing = some leaf → Asks (leaf, depth) (t, depth)

/-- What stands for a union is one of its leaves. -/
theorem mem_flatten_of_pick {members : List TypeId} {existing : Option String} {leaf : TypeId}
    (h : s.pick members existing = some leaf) : leaf ∈ Union.flatten s.host members := by
  rw [pick] at h
  cases hsel : s.selected (Union.flatten s.host members) with
  | some t =>
      simp only [hsel, Option.some.injEq] at h
      subst h
      rw [selected] at hsel
      split at hsel
      · split at hsel
        · exact List.mem_of_find?_eq_some hsel
        · exact nomatch hsel
      · exact nomatch hsel
  | none =>
      simp only [hsel] at h
      rw [Union.resolve, Union.flatten_flatten] at h
      have hmem : ∀ t, t ∈ (Union.resolveFlat s.host s.config (Union.flatten s.host members)
          existing).types → t ∈ Union.flatten s.host members :=
        fun t ht => Union.mem_of_mem_resolveFlat ht
      cases hres : Union.resolveFlat s.host s.config (Union.flatten s.host members) existing with
      | single t | matched t =>
          simp only [hres, Option.some.injEq] at h
          rw [hres] at hmem
          exact hmem leaf (List.mem_singleton.2 h.symm)
      | choice ranked =>
          simp only [hres] at h
          rw [hres] at hmem
          exact hmem leaf (Union.mem_of_defaultPick h)
      | unresolved =>
          simp only [hres] at h
          exact nomatch h

/-- What stands for a union is none itself. -/
theorem isUnion_of_pick {members : List TypeId} {existing : Option String} {leaf : TypeId}
    (h : s.pick members existing = some leaf) : (s.host.shape leaf).isUnion = false :=
  Union.isUnion_of_mem_flatten (s.mem_flatten_of_pick h)

/-- The order behind the recursion: fewer levels left, or as many for a type that is no union. -/
def rank (type : TypeId) (depth : Nat) : Nat :=
  2 * (s.config.maxDepth + 1 - depth) + if (s.host.shape type).isUnion then 1 else 0

theorem le_rank (type : TypeId) (depth : Nat) :
    2 * (s.config.maxDepth + 1 - depth) ≤ s.rank type depth :=
  Nat.le_add_right _ _

theorem rank_le (type : TypeId) (depth : Nat) :
    s.rank type depth ≤ 2 * (s.config.maxDepth + 1 - depth) + 1 := by
  rw [rank]
  split <;> omega

/-- What a value asks for has a lower rank: its parts have fewer levels left, and the leaf of a
union is no union. -/
theorem rank_lt_of_asks {part whole : TypeId × Nat} (h : s.Asks part whole) :
    s.rank part.1 part.2 < s.rank whole.1 whole.2 := by
  cases h with
  | @field t depth symbol fields f hd _ _ =>
      have hpart := s.rank_le f.type (depth + 1)
      have hwhole := s.le_rank t depth
      show s.rank f.type (depth + 1) < s.rank t depth
      omega
  | @element t e depth kind elements hd _ _ =>
      have hpart := s.rank_le e (depth + 1)
      have hwhole := s.le_rank t depth
      show s.rank e (depth + 1) < s.rank t depth
      omega
  | @leaf t leaf depth members existing hd ht hp =>
      have hleaf : (s.host.shape leaf).isUnion = false := s.isUnion_of_pick hp
      have hunion : (s.host.shape t).isUnion = true := by
        rw [ht]
        rfl
      show s.rank leaf depth < s.rank t depth
      rw [rank, rank, hleaf, hunion]
      exact Nat.lt_succ_self _

/-- Nothing is asked for in a circle, whatever circles the types are in. -/
theorem asks_wellFounded : WellFounded s.Asks :=
  Subrelation.wf s.rank_lt_of_asks
    (InvImage.wf (fun at' : TypeId × Nat => s.rank at'.1 at'.2) Nat.lt_wfRel.wf)

/-- The value of a record depends on those of its fields only. -/
theorem recordValue_congr {f g : TypeId → Option String → Value} (symbol : SymbolId)
    {fields : List Field} (h : ∀ x ∈ fields, ∀ e, f x.type e = g x.type e) :
    s.recordValue f symbol fields = s.recordValue g symbol fields := by
  have hmap : (fields.map fun x => (x.name, s.fieldValue x (f x.type x.defaultText))) =
      fields.map fun x => (x.name, s.fieldValue x (g x.type x.defaultText)) := by
    refine List.map_congr_left ?_
    intro x hx
    rw [h x hx]
  simp only [recordValue, hmap]

/-- The value of a collection looks only at the values of the elements that are written. -/
theorem collectionValue_congr {f g : TypeId → Option String → Value} (kind : CollectionKind)
    {elements : List TypeId} (h : ∀ x ∈ kind.written elements, f x none = g x none) :
    collectionValue f kind elements = collectionValue g kind elements := by
  match kind, elements with
  | .list, item :: _ | .set, item :: _ =>
      simp only [collectionValue, h item List.mem_cons_self]
  | .tuple, [item] =>
      simp only [collectionValue, h item List.mem_cons_self]
  | .tuple, a :: b :: rest =>
      have hmap : (a :: b :: rest).map (f · none) = (a :: b :: rest).map (g · none) :=
        List.map_congr_left h
      simp only [collectionValue, hmap]
  | .dict, key :: item :: _ =>
      have hitem := h item (List.mem_cons_of_mem _ List.mem_cons_self)
      simp only [collectionValue, h key List.mem_cons_self, hitem]
  | .list, [] | .set, [] | .tuple, [] | .dict, [] | .dict, [_] | .other, _ => rfl

/-- A step looks only at the values it asks for. -/
theorem step_congr {f g : TypeId → Nat → Option String → Value} (type : TypeId) (depth : Nat)
    (h : ∀ t d, s.Asks (t, d) (type, depth) → ∀ e, f t d e = g t d e) (existing : Option String) :
    s.step f type depth existing = s.step g type depth existing := by
  rw [step, step]
  by_cases hd : s.config.maxDepth < depth
  · rw [if_pos hd, if_pos hd]
  · rw [if_neg hd, if_neg hd]
    have hd' := Nat.le_of_not_lt hd
    cases ht : s.host.shape type with
    | union members =>
        cases hp : s.pick members existing with
        | none => simp only [hp]
        | some leaf =>
            simp only [hp]
            exact h leaf depth (.leaf hd' ht hp) none
    | record symbol fields =>
        simp only [atomValue, ht]
        exact s.recordValue_congr symbol fun x hx e => h x.type _ (.field hd' ht hx) e
    | collection kind elements =>
        simp only [atomValue, ht]
        refine collectionValue_congr kind fun x hx => ?_
        exact h x _ (.element hd' ht (CollectionKind.mem_of_mem_written hx)) none
    | _ => simp only [atomValue, ht]

/-- Writing a value is its own step: it obeys the rules at every depth, a union's leaf being written
at the depth of the union. -/
theorem value_step (type : TypeId) (depth : Nat) (existing : Option String) :
    s.value type depth existing = s.step (fun t d e => s.value t d e) type depth existing := by
  rw [value, step]
  by_cases hd : s.config.maxDepth < depth
  · rw [if_pos hd, Nat.sub_eq_zero_of_le hd]
    rfl
  · rw [if_neg hd]
    have hlevels : s.config.maxDepth + 1 - depth = (s.config.maxDepth + 1 - (depth + 1)) + 1 := by
      omega
    rw [hlevels, valueWithin]
    cases ht : s.host.shape type with
    | union members =>
        cases hp : s.pick members existing with
        | none => simp only [TypeShape.members?, hp]
        | some leaf =>
            have hleaf : (s.host.shape leaf).members? = none :=
              Option.not_isSome_iff_eq_none.1 (by
                rw [← TypeShape.isUnion, s.isUnion_of_pick hp]
                exact Bool.false_ne_true)
            simp only [TypeShape.members?, hp]
            rw [value, hlevels, valueWithin, hleaf]
    | _ => rfl

/-- The rules of writing have exactly one solution. -/
theorem eq_value_iff (f : TypeId → Nat → Option String → Value) :
    (∀ t d e, f t d e = s.step f t d e) ↔ ∀ t d e, f t d e = s.value t d e := by
  constructor
  · intro hf
    -- by well-founded induction: both agree on what the step asks for
    have h : ∀ at' : TypeId × Nat, ∀ e, f at'.1 at'.2 e = s.value at'.1 at'.2 e := by
      intro at'
      induction at' using s.asks_wellFounded.induction with
      | _ at' ih =>
          intro e
          rw [hf, s.value_step]
          exact s.step_congr at'.1 at'.2 (fun t d ha => ih (t, d) ha) e
    exact fun t d e => h (t, d) e
  · intro hf t d e
    rw [hf, s.value_step]
    exact s.step_congr t d (fun t d _ e => (hf t d e).symm) e

/-! ## What may be written with so many levels left -/

end Synthesis

/-- The terms with names of a kind that may be written with so many levels left. Only an alias
around the sentinel needs no level of its own. -/
inductive Term.Written (P : String → Prop) : Nat → Term → Prop where
  | sentinel {n : Nat} : Written P n .sentinel
  | placeholder {n : Nat} {name : String} : P name → Written P n (.placeholder name)
  | call {n : Nat} {name : String} : P name → Written P (n + 1) (.call name)
  | record {n : Nat} {name : String} {fields : List (String × Term)} :
      P name → (∀ f ∈ fields, P f.1) → (∀ f ∈ fields, Written P n f.2) →
      Written P (n + 1) (.record name fields)
  | list {n : Nat} {item : Term} : Written P n item → Written P (n + 1) (.list item)
  | set {n : Nat} {item : Term} : Written P n item → Written P (n + 1) (.set item)
  | tuple {n : Nat} {items : List Term} :
      (∀ t ∈ items, Written P n t) → Written P (n + 1) (.tuple items)
  | dict {n : Nat} {key value : Term} :
      Written P n key → Written P n value → Written P (n + 1) (.dict key value)

namespace Term

variable {P : String → Prop} {n : Nat} {t : Term}

/-- A bound for the values of the fields is one for all of them. -/
theorem recordDepthFields_le {fields : List (String × Term)}
    (h : ∀ f ∈ fields, f.2.recordDepth ≤ n) : recordDepthFields fields ≤ n := by
  induction fields with
  | nil => exact Nat.zero_le n
  | cons f fields ih =>
      rw [recordDepthFields]
      exact Nat.max_le.2 ⟨h f List.mem_cons_self, ih fun g hg => h g (List.mem_cons_of_mem _ hg)⟩

theorem recordDepthItems_le {items : List Term} (h : ∀ t ∈ items, t.recordDepth ≤ n) :
    recordDepthItems items ≤ n := by
  induction items with
  | nil => exact Nat.zero_le n
  | cons t items ih =>
      rw [recordDepthItems]
      exact Nat.max_le.2 ⟨h t List.mem_cons_self, ih fun u hu => h u (List.mem_cons_of_mem _ hu)⟩

theorem bracketDepthFields_le {fields : List (String × Term)}
    (h : ∀ f ∈ fields, f.2.bracketDepth ≤ n) : bracketDepthFields fields ≤ n := by
  induction fields with
  | nil => exact Nat.zero_le n
  | cons f fields ih =>
      rw [bracketDepthFields]
      exact Nat.max_le.2 ⟨h f List.mem_cons_self, ih fun g hg => h g (List.mem_cons_of_mem _ hg)⟩

theorem bracketDepthItems_le {items : List Term} (h : ∀ t ∈ items, t.bracketDepth ≤ n) :
    bracketDepthItems items ≤ n := by
  induction items with
  | nil => exact Nat.zero_le n
  | cons t items ih =>
      rw [bracketDepthItems]
      exact Nat.max_le.2 ⟨h t List.mem_cons_self, ih fun u hu => h u (List.mem_cons_of_mem _ hu)⟩

/-- All names of fields are the names before the values and those inside of them. -/
theorem allNamesFields_iff {fields : List (String × Term)} :
    AllNamesFields P fields ↔ ∀ f ∈ fields, P f.1 ∧ f.2.AllNames P := by
  induction fields with
  | nil => simp [AllNamesFields]
  | cons f fields ih => rw [AllNamesFields, ih, List.forall_mem_cons, and_assoc]

theorem allNamesItems_iff {items : List Term} :
    AllNamesItems P items ↔ ∀ t ∈ items, t.AllNames P := by
  induction items with
  | nil => simp [AllNamesItems]
  | cons t items ih => rw [AllNamesItems, ih, List.forall_mem_cons]

/-- Every record constructor call takes a level. -/
theorem Written.recordDepth_le (h : Written P n t) : t.recordDepth ≤ n := by
  induction h with
  | sentinel | placeholder _ | call _ => exact Nat.zero_le _
  | record _ _ _ ih => exact Nat.succ_le_succ (recordDepthFields_le ih)
  | list _ ih | set _ ih => exact Nat.le_succ_of_le ih
  | tuple _ ih => exact Nat.le_succ_of_le (recordDepthItems_le ih)
  | dict _ _ ihk ihv => exact Nat.le_succ_of_le (Nat.max_le.2 ⟨ihk, ihv⟩)

/-- Every pair of brackets takes a level, but for the innermost around a sentinel. -/
theorem Written.bracketDepth_le (h : Written P n t) : t.bracketDepth ≤ n + 1 := by
  induction h with
  | sentinel => exact Nat.zero_le _
  | placeholder _ | call _ => exact Nat.succ_le_succ (Nat.zero_le _)
  | record _ _ _ ih => exact Nat.succ_le_succ (bracketDepthFields_le ih)
  | list _ ih | set _ ih => exact Nat.succ_le_succ ih
  | tuple _ ih => exact Nat.succ_le_succ (bracketDepthItems_le ih)
  | dict _ _ ihk ihv => exact Nat.succ_le_succ (Nat.max_le.2 ⟨ihk, ihv⟩)

/-- What may be written has names of the kind only. -/
theorem Written.allNames (h : Written P n t) : t.AllNames P := by
  induction h with
  | sentinel => trivial
  | placeholder hn | call hn => exact hn
  | record hn hf _ ih => exact ⟨hn, allNamesFields_iff.2 fun f hmem => ⟨hf f hmem, ih f hmem⟩⟩
  | list _ ih | set _ ih => exact ih
  | tuple _ ih => exact allNamesItems_iff.2 ih
  | dict _ _ ihk ihv => exact ⟨ihk, ihv⟩

end Term

namespace Synthesis

open Term (Written)

section Written

variable {s : Synthesis} {P : String → Prop} (hP : s.host.Names P)

/-- A collection takes one level more than its elements. -/
theorem written_collectionTerm {n : Nat} {below : TypeId → Option String → Term}
    (hbelow : ∀ t e, Written P n (below t e)) (kind : CollectionKind) (elements : List TypeId) :
    Written P (n + 1) (collectionTerm below kind elements) := by
  match kind, elements with
  | .list, item :: _ => exact .list (hbelow item none)
  | .set, item :: _ => exact .set (hbelow item none)
  | .tuple, [item] =>
      refine .tuple fun t ht => ?_
      rw [List.mem_singleton.1 ht]
      exact hbelow item none
  | .tuple, a :: b :: rest =>
      refine .tuple fun t ht => ?_
      obtain ⟨item, -, rfl⟩ := List.mem_map.1 ht
      exact hbelow item none
  | .dict, key :: item :: _ => exact .dict (hbelow key none) (hbelow item none)
  | .list, [] | .set, [] | .tuple, [] | .dict, [] | .dict, [_] | .other, _ => exact .sentinel

include hP

theorem name_of_reference {symbol : SymbolId} {name : String}
    (h : s.reference symbol = some name) : P name := by
  rw [reference] at h
  cases ha : s.host.visibleAlias s.file symbol with
  | some shown =>
      rw [ha] at h
      exact Option.some.inj h ▸ hP.visibleAlias _ _ _ ha
  | none =>
      rw [ha] at h
      obtain ⟨sym, hsym, rfl⟩ := Option.map_eq_some_iff.1 h
      exact hP.symbol _ _ hsym

/-- An alias around the sentinel takes no level. -/
theorem written_of_aliasTerm? {n : Nat} {symbol : SymbolId} {t : Term}
    (h : s.aliasTerm? symbol = some t) : Written P n t := by
  rw [aliasTerm?] at h
  cases hr : s.reference symbol with
  | none =>
      rw [hr] at h
      exact absurd h (by simp)
  | some name =>
      rw [hr] at h
      by_cases hb : s.config.isBuiltinName name = true
      · simp [hb] at h
      · simp only [if_neg hb, Option.some.injEq] at h
        exact h ▸ .placeholder (name_of_reference hP hr)

theorem written_getD_aliasTerm? {n : Nat} (symbol : Option SymbolId) {t : Term}
    (ht : Written P n t) : Written P n ((symbol.bind s.aliasTerm?).getD t) := by
  cases hw : symbol.bind s.aliasTerm? with
  | none => exact ht
  | some w =>
      obtain ⟨id, -, hid⟩ := Option.bind_eq_some_iff.1 hw
      exact written_of_aliasTerm? hP hid

theorem written_fieldTerm {n : Nat} (field : Field) {t : Term} (ht : Written P n t) :
    Written P n (s.fieldTerm field t) := by
  rw [fieldTerm]
  split
  · exact written_getD_aliasTerm? hP field.aliasSymbol ht
  · exact ht

/-- A type that is no union is written with one level more than its parts. -/
theorem written_atomTerm {n : Nat} {below : TypeId → Option String → Term}
    (hbelow : ∀ t e, Written P n (below t e)) (type : TypeId) :
    Written P (n + 1) (s.atomTerm below type) := by
  rw [atomTerm]
  -- a call, a record and a literal each take the level; the sentinel and an alias around it do not
  cases ht : s.host.shape type with
  | record symbol fields =>
      simp only [recordTerm]
      split
      · exact .sentinel
      · cases hr : s.reference symbol with
        | none => exact .sentinel
        | some name =>
            refine .record (name_of_reference hP hr) ?_ ?_
            · intro f hf
              obtain ⟨field, hmem, rfl⟩ := List.mem_map.1 hf
              exact hP.field type symbol fields ht field hmem
            · intro f hf
              obtain ⟨field, hmem, rfl⟩ := List.mem_map.1 hf
              exact written_fieldTerm hP field (hbelow field.type field.defaultText)
  | collection kind elements => exact written_collectionTerm hbelow kind elements
  | builtin symbol name =>
      simp only [builtinTerm]
      split
      · exact .sentinel
      · refine .call ?_
        cases hr : symbol.bind s.reference with
        | none => exact hP.builtin type symbol name ht
        | some shown =>
            obtain ⟨id, -, hid⟩ := Option.bind_eq_some_iff.1 hr
            exact name_of_reference hP hid
  | typeAlias symbol name =>
      simp only [aliasTerm]
      split
      · exact .sentinel
      · cases symbol with
        | none => exact .placeholder (hP.typeAlias type none name ht)
        | some symbol => exact written_getD_aliasTerm? hP (some symbol) .sentinel
  | plain symbol =>
      simp only [plainTerm]
      split
      · exact .sentinel
      · cases hr : s.reference symbol with
        | none => exact .sentinel
        | some name => exact .call (name_of_reference hP hr)
  | _ => exact .sentinel

/-- With so many levels left, what is written takes at most as many: the induction is on the levels.
-/
theorem written_termWithin (levels : Nat) (type : TypeId) (existing : Option String) :
    Written P levels (s.termWithin levels type existing) := by
  induction levels generalizing type existing with
  | zero => exact .sentinel
  | succ levels ih =>
      rw [termWithin_succ]
      cases s.leaf? type existing with
      | none => exact .sentinel
      | some leaf => exact written_atomTerm hP ih leaf

end Written

variable (s : Synthesis)

/-- Records nest as deep as there are levels at most. -/
theorem recordDepth_termWithin_le (levels : Nat) (type : TypeId) (existing : Option String) :
    (s.termWithin levels type existing).recordDepth ≤ levels := by
  have hall : s.host.Names fun _ => True :=
    ⟨fun _ _ _ => trivial, fun _ _ _ _ => trivial, fun _ _ _ _ _ _ => trivial,
      fun _ _ _ _ => trivial, fun _ _ _ _ => trivial⟩
  exact (written_termWithin hall levels type existing).recordDepth_le

/-- Brackets nest one deeper, for the alias around a sentinel. -/
theorem nesting_valueWithin_le (hnames : s.host.Names fun name => Text.IsBracketFree name.toList)
    (levels : Nat) (type : TypeId) (existing : Option String) :
    Text.nesting (s.valueWithin levels type existing).text.toList ≤ levels + 1 := by
  have hwritten := written_termWithin hnames levels type existing
  rw [s.valueWithin_text, (Term.nests_render _ hwritten.allNames).nesting_eq]
  exact hwritten.bracketDepth_le

/-! ## Values are bounded on every type graph -/

/-- Writing a value ends on every graph of types: nothing is asked for in a circle, and the rules
have one solution. Below the configured depth that is the sentinel; above it, record constructor
calls nest no deeper than the levels that are left, and brackets one deeper. -/
theorem value_bounded (s : Synthesis) :
    WellFounded s.Asks ∧
    (∀ f : TypeId → Nat → Option String → Value,
      (∀ t d e, f t d e = s.step f t d e) ↔ ∀ t d e, f t d e = s.value t d e) ∧
    ∀ (type : TypeId) (depth : Nat) (existing : Option String),
      (s.config.maxDepth < depth → (s.value type depth existing).text = sentinel) ∧
      (depth ≤ s.config.maxDepth →
        (s.value type depth existing).text = (s.term type depth existing).render ∧
        (s.term type depth existing).recordDepth ≤ s.config.maxDepth + 1 - depth ∧
        ((s.host.Names fun name => Text.IsBracketFree name.toList) →
          Text.nesting (s.value type depth existing).text.toList ≤
            s.config.maxDepth + 2 - depth)) := by
  refine ⟨s.asks_wellFounded, s.eq_value_iff, ?_⟩
  intro type depth existing
  constructor
  · intro hd
    rw [s.value_step, step, if_pos hd]
    rfl
  · intro hd
    refine ⟨s.value_text type depth existing, s.recordDepth_termWithin_le _ type existing, ?_⟩
    intro hnames
    have hbound := s.nesting_valueWithin_le hnames (s.config.maxDepth + 1 - depth) type existing
    have hlevels : s.config.maxDepth + 1 - depth + 1 = s.config.maxDepth + 2 - depth := by omega
    rw [hlevels] at hbound
    exact hbound

/-- A record whose only field is of its own type, written two levels deep. -/
def cycle : Synthesis where
  host := {
    shape := fun _ => .record ⟨0⟩ [{ name := "r", type := ⟨0⟩ }]
    displayName := fun _ => "m.Rec"
    symbolOf := fun _ => some ⟨0⟩
    symbol := fun _ =>
      some { name := "Rec", qualifiedName := "m.Rec", module := "m", kind := .classType }
    provenance := fun _ => some .own
    needsArguments := fun _ => true
    lookup := fun _ _ => none
    visibleAlias := fun _ _ => none
    callee := fun _ => none }
  config := { Config.default with maxDepth := 1 }
  options := {}
  selections := []
  file := ⟨0⟩

theorem cycle_bounded :
    (cycle.value ⟨0⟩ 0).text = "Rec(r=Rec(r=...))" ∧
    (1 < 2 ∧ (cycle.value ⟨0⟩ 2).text = sentinel) ∧
    (0 ≤ 1 ∧ (cycle.term ⟨0⟩ 0).recordDepth ≤ 2) ∧
    (cycle.host.Names fun name => Text.IsBracketFree name.toList) ∧
    Text.nesting (cycle.value ⟨0⟩ 0).text.toList ≤ 3 := by
  obtain ⟨-, -, h⟩ := value_bounded cycle
  have hdeep := (h ⟨0⟩ 2 none).1 (by decide)
  have hshallow := (h ⟨0⟩ 0 none).2 (by decide)
  have hnames : cycle.host.Names fun name => Text.IsBracketFree name.toList := by
    refine ⟨?_, ?_, ?_, ?_, ?_⟩
    · intro id sym hsym
      rw [← Option.some.inj hsym]
      decide
    · intro file id name hname
      exact nomatch hname
    · intro t symbol fields hshape f hf
      obtain ⟨-, rfl⟩ := TypeShape.record.inj hshape
      rw [List.mem_singleton.1 hf]
      decide
    · intro t symbol name hshape
      exact nomatch hshape
    · intro t symbol name hshape
      exact nomatch hshape
  exact ⟨by decide +kernel, ⟨by decide, hdeep⟩, ⟨by decide, hshallow.2.1⟩, hnames,
    hshallow.2.2 hnames⟩

end Synthesis

end CallFill
