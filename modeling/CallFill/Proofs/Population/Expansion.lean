import CallFill.Proofs.Population.ChosenMember
import CallFill.Proofs.Population.LocalScope
import CallFill.Proofs.Synthesis.Refinement
import Mathlib

/-!
# When writing records out matters

Written flat, a value has the sentinel where it would have a record. So the option changes a value
exactly if the value with records written out has a record in it (`Synthesis.Expands`), and then the
flat text is the shorter one. A plan without variables in scope changes exactly if the value of some
missing parameter does.

Whether filling a call may write out records is told from the types of the parameters and the
members of their unions (`Host.isRecursiveApplicable`). A record among the elements of a collection
is written out as well, and not told of (`Host.not_recursionTold_inventory`). Apart from these, a
call of which no records are told has the same plan either way (`Host.plan_flat_eq`).
-/

namespace CallFill

/-! ## What a value writes out -/

namespace Synthesis

/-- The value of a type, with so many levels left, has a record written out in it. -/
inductive Expands (s : Synthesis) : Nat → TypeId → Option String → Prop where
  | record {n : Nat} {type leaf : TypeId} {existing : Option String} {symbol : SymbolId}
      {fields : List Field} :
      s.leaf? type existing = some leaf → s.host.shape leaf = .record symbol fields →
      fields ≠ [] → (s.reference symbol).isSome → Expands s (n + 1) type existing
  | element {n : Nat} {type leaf e : TypeId} {existing : Option String} {kind : CollectionKind}
      {elements : List TypeId} :
      s.leaf? type existing = some leaf → s.host.shape leaf = .collection kind elements →
      e ∈ kind.written elements → Expands s n e none → Expands s (n + 1) type existing

/-- The synthesis with records written out or not. -/
def writing (s : Synthesis) (recursive : Bool) : Synthesis :=
  { s with options := { s.options with recursive } }

variable {s : Synthesis} {n : Nat} {type : TypeId} {existing : Option String}

@[simp] theorem host_writing (r : Bool) : (s.writing r).host = s.host := rfl

@[simp] theorem reference_writing (r : Bool) : (s.writing r).reference = s.reference := rfl

@[simp] theorem leaf?_writing (r : Bool) : (s.writing r).leaf? = s.leaf? := rfl

section Parts

variable {below : TypeId → Option String → Value} {symbol : SymbolId} {fields : List Field}

theorem recordValue_flat : (s.writing false).recordValue below symbol fields = .unknown := rfl

/-- A record without fields, or without a name, is not written out. -/
theorem recordValue_of_bare (h : fields = [] ∨ s.reference symbol = none) :
    (s.writing true).recordValue below symbol fields = .unknown := by
  rw [recordValue, reference_writing]
  split
  · rfl
  · next hopen =>
      rcases h with rfl | hname
      · exact absurd rfl hopen
      · rw [hname]

/-- A type that is no record to be written out has the same value either way, as far as its parts
have. -/
theorem atomValue_flat {flat below : TypeId → Option String → Value} {type : TypeId}
    (hrecord : ∀ symbol fields, s.host.shape type = .record symbol fields →
      fields = [] ∨ s.reference symbol = none)
    (hbelow : ∀ kind elements, s.host.shape type = .collection kind elements →
      ∀ e ∈ kind.written elements, flat e none = below e none) :
    (s.writing false).atomValue flat type = (s.writing true).atomValue below type := by
  rw [atomValue, atomValue, host_writing, host_writing]
  cases hshape : s.host.shape type with
  | record symbol fields =>
      show (s.writing false).recordValue flat symbol fields =
        (s.writing true).recordValue below symbol fields
      rw [recordValue_flat, recordValue_of_bare (hrecord symbol fields hshape)]
  | collection kind elements => exact collectionValue_congr kind (hbelow kind elements hshape)
  | _ => rfl

/-- Where no record is written out, the option changes nothing. -/
theorem valueWithin_flat (h : ¬ s.Expands n type existing) :
    (s.writing false).valueWithin n type existing =
      (s.writing true).valueWithin n type existing := by
  induction n generalizing type existing with
  | zero => rfl
  | succ n ih =>
      rw [valueWithin_succ, valueWithin_succ, leaf?_writing, leaf?_writing]
      cases hleaf : s.leaf? type existing with
      | none => rw [Option.elim_none, Option.elim_none]
      | some leaf =>
          rw [Option.elim_some, Option.elim_some]
          refine atomValue_flat ?_ ?_
          · intro symbol fields hshape
            -- a record with fields and a name would be written out
            by_contra hbare
            obtain ⟨hfields, hname⟩ := not_or.1 hbare
            exact h (.record hleaf hshape hfields (Option.isSome_iff_ne_none.2 hname))
          · intro kind elements hshape e he
            refine ih ?_
            intro hexpands
            exact h (.element hleaf hshape he hexpands)

end Parts

/-! ## Where a record is written out -/

/-- Joined texts are as long as all of them and the separators between. -/
theorem length_intercalate (sep : String) (texts : List String) :
    (sep.intercalate texts).length =
      (texts.map String.length).sum + sep.length * (texts.length - 1) := by
  induction texts with
  | nil => rfl
  | cons text texts ih =>
      cases texts with
      | nil => simp
      | cons next texts =>
          rw [String.intercalate_cons_cons, String.length_append, String.length_append, ih]
          simp only [List.map_cons, List.sum_cons, List.length_cons, Nat.add_sub_cancel,
            Nat.mul_add]
          omega

/-- Of texts joined alike, longer ones make a longer text. -/
theorem length_intercalate_lt {α : Type} (sep : String) {f g : α → String} {as : List α}
    (hle : ∀ a ∈ as, (f a).length ≤ (g a).length) (hlt : ∃ a ∈ as, (f a).length < (g a).length) :
    (sep.intercalate (as.map f)).length < (sep.intercalate (as.map g)).length := by
  rw [length_intercalate, length_intercalate, List.length_map, List.length_map, List.map_map,
    List.map_map]
  exact Nat.add_lt_add_right (List.sum_lt_sum _ _ hle hlt) _

/-- No value is the empty text. -/
theorem length_valueWithin_pos : 0 < (s.valueWithin n type existing).text.length := by
  rw [valueWithin_text, ← String.length_toList]
  cases hopen : (s.termWithin n type existing).isSentinel with
  | true =>
      rw [(Term.render_eq_sentinel_iff _).2 hopen]
      decide
  | false =>
      obtain ⟨body, c, -, htext⟩ := Term.render_closes hopen
      rw [htext, List.length_append]
      exact Nat.succ_pos _

/-- The value of a field is not empty if that of its type is not. -/
theorem length_fieldValue_pos {f : Field} {v : Value} (hv : 0 < v.text.length) :
    0 < (s.fieldValue f v).text.length := by
  rw [fieldValue]
  split
  · cases hwrap : f.aliasSymbol.bind s.aliasWrap with
    | none => exact hv
    | some w =>
        obtain ⟨id, -, hid⟩ := Option.bind_eq_some_iff.1 hwrap
        rcases s.aliasTerm?_cases id with ⟨-, hnone⟩ | ⟨name, -, hsome⟩
        · cases hnone.symm.trans hid
        · rw [Option.getD_some, ← Option.some.inj (hsome.symm.trans hid)]
          rw [aliasPlaceholder, String.length_append]
          exact Nat.lt_of_lt_of_le (by decide : 0 < ")".length) (Nat.le_add_left _ _)
  · exact hv

/-- A record that is written out is longer than the sentinel. -/
theorem length_recordValue {below : TypeId → Option String → Value} {symbol : SymbolId}
    {fields : List Field} (hbelow : ∀ t e, 0 < (below t e).text.length) (hfields : fields ≠ [])
    (hname : (s.reference symbol).isSome) :
    sentinel.length < ((s.writing true).recordValue below symbol fields).text.length := by
  obtain ⟨name, hname⟩ := Option.isSome_iff_exists.1 hname
  obtain ⟨f, fields, rfl⟩ := List.exists_cons_of_ne_nil hfields
  have hvalue : 0 < ((s.writing true).fieldValue f (below f.type f.defaultText)).text.length :=
    length_fieldValue_pos (hbelow f.type f.defaultText)
  have hopen : ¬(!(s.writing true).options.recursive || (f :: fields).isEmpty) = true :=
    Bool.false_ne_true
  rw [recordValue, if_neg hopen, reference_writing, hname]
  have hsign : "=".length = 1 ∧ "(".length = 1 ∧ ")".length = 1 ∧ sentinel.length = 3 := by decide
  simp only [length_intercalate, String.length_append, List.map_cons, List.sum_cons]
  omega

/-- A collection grows with its elements. -/
theorem length_collectionValue_lt {f g : TypeId → Option String → Value} {kind : CollectionKind}
    {elements : List TypeId} {e : TypeId}
    (hle : ∀ x, (f x none).text.length ≤ (g x none).text.length)
    (he : e ∈ kind.written elements) (hlt : (f e none).text.length < (g e none).text.length) :
    (collectionValue f kind elements).text.length <
      (collectionValue g kind elements).text.length := by
  -- one value in brackets grows with its element
  have hone : ∀ (opening closing : String) (item : TypeId), e ∈ [item] →
      ((f item none).wrap opening closing).text.length <
        ((g item none).wrap opening closing).text.length := by
    intro opening closing item hitem
    rw [List.mem_singleton.1 hitem] at hlt
    simp only [Value.wrap, String.length_append]
    omega
  cases kind with
  | list =>
      cases elements with
      | nil => exact absurd he List.not_mem_nil
      | cons item _ => exact hone _ _ item he
  | set =>
      cases elements with
      | nil => exact absurd he List.not_mem_nil
      | cons item _ => exact hone _ _ item he
  | tuple =>
      cases elements with
      | nil => exact absurd he List.not_mem_nil
      | cons a rest =>
          cases rest with
          | nil => exact hone _ _ a he
          | cons b rest =>
              have hitems := length_intercalate_lt ", " (fun x _ => hle x) ⟨e, he, hlt⟩
              simp only [CollectionKind.written] at hitems
              simp only [collectionValue, String.length_append, List.map_map, Function.comp_def]
              omega
  | dict =>
      cases elements with
      | nil => exact absurd he List.not_mem_nil
      | cons key rest =>
          cases rest with
          | nil => exact absurd he List.not_mem_nil
          | cons item _ =>
              have hkey := hle key
              have hitem := hle item
              simp only [collectionValue, String.length_append]
              rcases List.mem_cons.1 he with rfl | hmem
              · omega
              · rw [List.mem_singleton.1 hmem] at hlt
                omega
  | other => exact absurd he List.not_mem_nil

/-- Where a record is written out, the flat text is the shorter one. -/
theorem length_valueWithin_lt (h : s.Expands n type existing) :
    ((s.writing false).valueWithin n type existing).text.length <
      ((s.writing true).valueWithin n type existing).text.length := by
  induction n generalizing type existing with
  | zero => exact nomatch h
  | succ n ih =>
      -- an element without a record has the same value either way
      have hle : ∀ e, ((s.writing false).valueWithin n e none).text.length ≤
          ((s.writing true).valueWithin n e none).text.length := by
        intro e
        by_cases hexpands : s.Expands n e none
        · exact Nat.le_of_lt (ih hexpands)
        · rw [valueWithin_flat hexpands]
      rw [valueWithin_succ, valueWithin_succ, leaf?_writing, leaf?_writing]
      cases h with
      | @record _ _ leaf _ symbol fields hleaf hshape hfields hname =>
          rw [hleaf]
          show ((s.writing false).atomValue _ leaf).text.length <
            ((s.writing true).atomValue _ leaf).text.length
          rw [atomValue, atomValue, host_writing, host_writing, hshape]
          exact length_recordValue (fun _ _ => length_valueWithin_pos) hfields hname
      | @element _ _ leaf e _ kind elements hleaf hshape he hexpands =>
          rw [hleaf]
          show ((s.writing false).atomValue _ leaf).text.length <
            ((s.writing true).atomValue _ leaf).text.length
          rw [atomValue, atomValue, host_writing, host_writing, hshape]
          exact length_collectionValue_lt hle he (ih hexpands)

/-- Not writing records makes a difference exactly where one would be expanded. -/
theorem valueWithin_flat_eq_iff :
    (s.writing false).valueWithin n type existing =
      (s.writing true).valueWithin n type existing ↔ ¬ s.Expands n type existing := by
  constructor
  · intro heq hexpands
    have hlt := length_valueWithin_lt hexpands
    rw [heq] at hlt
    exact Nat.lt_irrefl _ hlt
  · exact valueWithin_flat

/-- A parameter without an alias has the same value either way unless its type has a record written
out in it. -/
theorem parameterValue_flat_eq_iff {p : Parameter} (halias : p.aliasSymbol = none) :
    (s.writing false).parameterValue p = (s.writing true).parameterValue p ↔
      ∀ t, p.type = some t → ¬ s.Expands (s.config.maxDepth + 1) t p.defaultText := by
  cases htype : p.type with
  | none =>
      rw [parameterValue, parameterValue, halias, htype]
      simp
  | some type =>
      rw [parameterValue_of_no_alias htype halias, parameterValue_of_no_alias htype halias]
      simp only [Option.some.injEq, forall_eq']
      exact valueWithin_flat_eq_iff

/-- What is planned for a parameter looks at the option through its value only. -/
theorem plannedArgument_flat {p : Parameter} (scope : ScopeId)
    (h : (s.writing false).parameterValue p = (s.writing true).parameterValue p) :
    (s.writing false).plannedArgument scope p = (s.writing true).plannedArgument scope p := by
  rw [plannedArgument, plannedArgument, fallbackValue, fallbackValue, h]
  rfl

end Synthesis

/-! ## What is told from the types -/

namespace Host

variable (h : Host)

/-- The types that a value for a type may be written for: the leaves of a union, or the type
itself. -/
def writable (t : TypeId) : List TypeId :=
  match (h.shape t).members? with
  | some members => Union.flatten h members
  | none => [t]

/-- A value for the type may be a collection with values for the element type in it. -/
def Collects (t e : TypeId) : Prop :=
  ∃ u ∈ h.writable t, ∃ kind elements,
    h.shape u = .collection kind elements ∧ e ∈ kind.written elements

variable {h}

/-- A type is like a record exactly if a record is among the types it may be written as. -/
theorem isRecordLike_iff {t : TypeId} :
    h.isRecordLike t = true ↔ ∃ u ∈ h.writable t, (h.shape u).isRecord = true := by
  rw [isRecordLike, writable]
  cases hshape : h.shape t with
  | union members => exact List.any_eq_true
  | _ => simp [TypeShape.members?, TypeShape.isRecord, hshape]

end Host

namespace Synthesis

variable {s : Synthesis}

/-- The leaf that is chosen is one that the type may be written as. -/
theorem mem_writable_of_leaf? {type leaf : TypeId} {existing : Option String}
    (h : s.leaf? type existing = some leaf) : leaf ∈ s.host.writable type := by
  rw [leaf?] at h
  rw [Host.writable]
  cases hmembers : (s.host.shape type).members? with
  | some members =>
      rw [hmembers] at h
      exact s.mem_flatten_of_pick h
  | none =>
      rw [hmembers] at h
      exact List.mem_singleton.2 (Option.some.inj h).symm

/-- What is written out is a record that the type itself may stand for, or one among the elements of
collections, at whatever depth. -/
theorem Expands.reaches {n : Nat} {type : TypeId} {existing : Option String}
    (h : s.Expands n type existing) :
    ∃ e, Relation.ReflTransGen s.host.Collects type e ∧ s.host.isRecordLike e = true := by
  induction h with
  | @record n type leaf existing symbol fields hleaf hshape _ _ =>
      have hrecord : (s.host.shape leaf).isRecord = true := by
        rw [hshape]
        rfl
      exact ⟨type, .refl, Host.isRecordLike_iff.2 ⟨leaf, mem_writable_of_leaf? hleaf, hrecord⟩⟩
  | @element n type leaf e existing kind elements hleaf hshape he _ ih =>
      obtain ⟨inner, hreaches, hlike⟩ := ih
      have hcollects : s.host.Collects type e :=
        ⟨leaf, mem_writable_of_leaf? hleaf, kind, elements, hshape, he⟩
      exact ⟨inner, hreaches.head hcollects, hlike⟩

end Synthesis

/-! ## Plans with and without records written out -/

namespace Host

variable {h : Host} {c : Config} {call : CallSite} {o : Options} {sel : Selections}

/-- Two values make the same argument only if they are the same. -/
theorem asArgument_inj {v w : Value} {name : String} :
    v.asArgument name = w.asArgument name ↔ v = w := by
  constructor
  · intro heq
    obtain ⟨-, htext, hsymbols⟩ := PlannedArgument.mk.inj heq
    cases v
    exact congrArg₂ Value.mk htext hsymbols
  · exact congrArg (Value.asArgument · name)

/-- **What the option changes.** Without variables in scope and without aliases on the parameters,
the plan with records written out is the flat plan exactly if the value of no missing parameter has
a record written out in it. -/
theorem plan_flat_eq_iff (hlocal : o.useLocalScope = false)
    (halias : ∀ p ∈ h.missing call o, p.aliasSymbol = none) :
    h.plan c call { o with recursive := false } sel =
      h.plan c call { o with recursive := true } sel ↔
    ∀ p ∈ h.missing call o, ∀ t, p.type = some t →
      ¬ (h.synthesis c call o sel).Expands (c.maxDepth + 1) t p.defaultText := by
  have hmap : ∀ r, h.plan c call { o with recursive := r } sel = (h.missing call o).map fun p =>
      (((h.synthesis c call o sel).writing r).parameterValue p).asArgument p.name :=
    fun r => plan_eq_map (o := { o with recursive := r }) sel hlocal
  rw [hmap, hmap, List.map_inj_left]
  refine forall₂_congr fun p hp => ?_
  rw [asArgument_inj, Synthesis.parameterValue_flat_eq_iff (halias p hp)]

/-- **What is told of a call.** A call of which it is told that no records are written out, and
whose parameters collect no records at any depth, has the same plan with records written out as
without, for all options and selections. -/
theorem plan_flat_eq (htold : h.isRecursiveApplicable call = false)
    (hcollects : ∀ sig, h.callee call = some sig → ∀ p ∈ sig.parameters, p.isVariadic = false →
      ∀ t, p.type = some t → ∀ e, Relation.TransGen h.Collects t e → h.isRecordLike e = false)
    (c : Config) (o : Options) (sel : Selections) :
    h.plan c call { o with recursive := false } sel =
      h.plan c call { o with recursive := true } sel := by
  refine List.filterMap_congr fun p hp => ?_
  obtain ⟨sig, hcallee, hmem, hoffered⟩ := exists_signature_of_mem_missing hp
  have hvariadic : p.isVariadic = false := by
    simp only [Parameter.isOffered, Bool.and_eq_true, Bool.not_eq_true'] at hoffered
    exact hoffered.1.1
  rw [isRecursiveApplicable, hcallee] at htold
  have hplain := List.any_eq_false.1 htold p hmem
  simp only [hvariadic, Bool.not_false, Bool.true_and, Bool.or_eq_true, not_or,
    Option.not_isSome_iff_eq_none] at hplain
  obtain ⟨halias, hrecord⟩ := hplain
  refine Synthesis.plannedArgument_flat (s := h.synthesis c call o sel) call.scope ?_
  refine (Synthesis.parameterValue_flat_eq_iff halias).2 ?_
  intro t htype hexpands
  obtain ⟨e, hreaches, hlike⟩ := hexpands.reaches
  rcases Relation.reflTransGen_iff_eq_or_transGen.1 hreaches with rfl | hinside
  · rw [htype] at hrecord
    exact hrecord hlike
  · have hunlike := hcollects sig hcallee p hmem hvariadic t htype e hinside
    exact Bool.false_ne_true (hunlike.symm.trans hlike)

/-- What is told of a call is right: if no records are written out, the option does not matter. -/
def RecursionTold (h : Host) (call : CallSite) : Prop :=
  h.isRecursiveApplicable call = false → ∀ (c : Config) (o : Options) (sel : Selections),
    h.plan c call { o with recursive := false } sel =
      h.plan c call { o with recursive := true } sel

/-- A host with a record `Item(name: str)` and a function `store(items: list[Item])`. -/
def inventory : Host :=
  { blank with
    shape := fun t =>
      match t.index with
      | 0 => .builtin none "str"
      | 1 => .record ⟨0⟩ [{ name := "name", type := ⟨0⟩ }]
      | _ => .collection .list [⟨1⟩]
    symbol := fun _ => some {
      name := "Item", qualifiedName := "m.Item", module := "m", kind := .classType }
    callee := fun _ => some {
      name := "store", parameters := [{ name := "items", type := some ⟨2⟩ }] } }

/-- The items of a list are written out, and not told of. -/
theorem not_recursionTold_inventory :
    inventory.isRecursiveApplicable greetCall = false ∧
    planText (inventory.plan Config.default greetCall (Options.flat {}) []) = "items=[...]" ∧
    planText (inventory.plan Config.default greetCall {} []) = "items=[Item(name=...)]" ∧
    ¬ inventory.RecursionTold greetCall := by
  have htold : inventory.isRecursiveApplicable greetCall = false := by decide +kernel
  have hflat : planText (inventory.plan Config.default greetCall (Options.flat {}) []) =
      "items=[...]" := by decide +kernel
  have hwritten : planText (inventory.plan Config.default greetCall {} []) =
      "items=[Item(name=...)]" := by decide +kernel
  refine ⟨htold, hflat, hwritten, ?_⟩
  intro hright
  have heq : inventory.plan Config.default greetCall (Options.flat {}) [] =
      inventory.plan Config.default greetCall {} [] := hright htold Config.default {} []
  rw [heq, hwritten] at hflat
  exact absurd hflat (by decide)

end Host

end CallFill
