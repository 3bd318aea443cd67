import CallFill.Proofs.Text.Brackets
import CallFill.Synthesis

/-!
# The form of a written value

The text of a written value is the rendering of a term: the sentinel, a call, an alias around the
sentinel, a record with a term for every field, or a collection of terms. `Synthesis.term` builds
this term by the rules that build the text, and `value_text` says that the one renders as the other.
What is said of the form of a value (how deep its records nest, which names it calls) is said of its
term.
-/

namespace CallFill

/-- The form of a written value. -/
inductive Term where
  | sentinel
  /-- A call without arguments. -/
  | call (name : String)
  /-- An alias around the sentinel. -/
  | placeholder (name : String)
  /-- A constructor call with a value for every field. -/
  | record (name : String) (fields : List (String × Term))
  | list (item : Term)
  | set (item : Term)
  | tuple (items : List Term)
  | dict (key value : Term)

namespace Term

mutual

/-- The text of a term. -/
def render : Term → String
  | sentinel => CallFill.sentinel
  | call name => name ++ "()"
  | placeholder name => aliasPlaceholder name
  | record name fields => name ++ "(" ++ ", ".intercalate (renderFields fields) ++ ")"
  | list item => "[" ++ render item ++ "]"
  | set item => "\x7b" ++ render item ++ "\x7d"
  | tuple items => "(" ++ ", ".intercalate (renderItems items) ++ ")"
  | dict key value => "\x7b" ++ render key ++ ": " ++ render value ++ "\x7d"

/-- The texts of a record's fields. -/
def renderFields : List (String × Term) → List String
  | [] => []
  | (name, t) :: fields => (name ++ "=" ++ render t) :: renderFields fields

/-- The texts of some terms. -/
def renderItems : List Term → List String
  | [] => []
  | t :: items => render t :: renderItems items

end

mutual

/-- How deep the record constructor calls of a term nest. -/
def recordDepth : Term → Nat
  | sentinel | call _ | placeholder _ => 0
  | record _ fields => recordDepthFields fields + 1
  | list item | set item => recordDepth item
  | tuple items => recordDepthItems items
  | dict key value => max (recordDepth key) (recordDepth value)

/-- How deep the record constructor calls in a record's fields nest. -/
def recordDepthFields : List (String × Term) → Nat
  | [] => 0
  | (_, t) :: fields => max (recordDepth t) (recordDepthFields fields)

/-- How deep the record constructor calls in some terms nest. -/
def recordDepthItems : List Term → Nat
  | [] => 0
  | t :: items => max (recordDepth t) (recordDepthItems items)

end

mutual

/-- How deep the brackets of a term nest, those in its names aside. -/
def bracketDepth : Term → Nat
  | sentinel => 0
  | call _ | placeholder _ => 1
  | record _ fields => bracketDepthFields fields + 1
  | list item | set item => bracketDepth item + 1
  | tuple items => bracketDepthItems items + 1
  | dict key value => max (bracketDepth key) (bracketDepth value) + 1

/-- How deep the brackets in a record's fields nest. -/
def bracketDepthFields : List (String × Term) → Nat
  | [] => 0
  | (_, t) :: fields => max (bracketDepth t) (bracketDepthFields fields)

/-- How deep the brackets in some terms nest. -/
def bracketDepthItems : List Term → Nat
  | [] => 0
  | t :: items => max (bracketDepth t) (bracketDepthItems items)

end

mutual

/-- Whether every name in a term, of a callee or of a field, has a property. -/
def AllNames (P : String → Prop) : Term → Prop
  | sentinel => True
  | call name | placeholder name => P name
  | record name fields => P name ∧ AllNamesFields P fields
  | list item | set item => AllNames P item
  | tuple items => AllNamesItems P items
  | dict key value => AllNames P key ∧ AllNames P value

/-- Whether every name in a record's fields has a property. -/
def AllNamesFields (P : String → Prop) : List (String × Term) → Prop
  | [] => True
  | (name, t) :: fields => P name ∧ AllNames P t ∧ AllNamesFields P fields

/-- Whether every name in some terms has a property. -/
def AllNamesItems (P : String → Prop) : List Term → Prop
  | [] => True
  | t :: items => AllNames P t ∧ AllNamesItems P items

end

/-- The places in a term at which a term stands, the whole among them. -/
inductive Occurs (u : Term) : Term → Prop where
  | here : Occurs u u
  | field {name : String} {fields : List (String × Term)} {f : String × Term} :
      f ∈ fields → Occurs u f.2 → Occurs u (.record name fields)
  | listItem {item : Term} : Occurs u item → Occurs u (.list item)
  | setItem {item : Term} : Occurs u item → Occurs u (.set item)
  | tupleItem {items : List Term} {t : Term} : t ∈ items → Occurs u t → Occurs u (.tuple items)
  | key {key value : Term} : Occurs u key → Occurs u (.dict key value)
  | value {key value : Term} : Occurs u value → Occurs u (.dict key value)

/-- Whether the term is the sentinel. -/
def isSentinel : Term → Bool
  | sentinel => true
  | _ => false

/-- The fields of a record are rendered one by one. -/
theorem renderFields_eq_map (fields : List (String × Term)) :
    renderFields fields = fields.map fun f => f.1 ++ "=" ++ f.2.render := by
  induction fields with
  | nil => rw [renderFields, List.map_nil]
  | cons f fields ih => rw [renderFields, ih, List.map_cons]

theorem renderItems_eq_map (items : List Term) : renderItems items = items.map render := by
  induction items with
  | nil => rw [renderItems, List.map_nil]
  | cons t items ih => rw [renderItems, ih, List.map_cons]

/-! ## Brackets of a rendered term -/

mutual

/-- The brackets of a rendered term are those of the term, as long as its names have none. -/
theorem nests_render (t : Term) (h : t.AllNames fun name => Text.IsBracketFree name.toList) :
    Text.Nests t.bracketDepth t.render.toList := by
  cases t with
  | sentinel => exact Text.nests_of_isBracketFree (by decide)
  | call name =>
      have hempty : Text.Nests 0 [] := Text.nests_of_isBracketFree fun c hc => nomatch hc
      rw [render, String.toList_append]
      exact hempty.called h
  | placeholder name =>
      have hinner : Text.Nests 0 CallFill.sentinel.toList :=
        Text.nests_of_isBracketFree (by decide)
      rw [render, aliasPlaceholder]
      simp only [String.toList_append]
      rw [List.append_assoc, List.append_assoc]
      exact hinner.called h
  | record name fields =>
      obtain ⟨hname, hfields⟩ := h
      rw [render]
      simp only [String.toList_append, String.toList_intercalate]
      rw [List.append_assoc, List.append_assoc]
      exact (nests_renderFields fields hfields).called hname
  | list item =>
      have hitem := (nests_render item h).bracket '[' ']' rfl rfl rfl
      rw [render]
      simp only [String.toList_append]
      rw [List.append_assoc]
      exact hitem
  | set item =>
      have hitem := (nests_render item h).bracket '\x7b' '\x7d' rfl rfl rfl
      rw [render]
      simp only [String.toList_append]
      rw [List.append_assoc]
      exact hitem
  | tuple items =>
      have hitems := (nests_renderItems items h).bracket '(' ')' rfl rfl rfl
      rw [render]
      simp only [String.toList_append, String.toList_intercalate]
      rw [List.append_assoc]
      exact hitems
  | dict key value =>
      obtain ⟨hkey, hvalue⟩ := h
      have hsep : Text.Nests 0 ": ".toList := Text.nests_of_isBracketFree (by decide)
      have hpair := ((nests_render key hkey).append hsep).append (nests_render value hvalue)
      rw [Nat.max_zero] at hpair
      have hdict := hpair.bracket '\x7b' '\x7d' rfl rfl rfl
      rw [render]
      simp only [String.toList_append]
      simp only [List.append_assoc] at hdict ⊢
      exact hdict

/-- The brackets of a record's rendered fields. -/
theorem nests_renderFields (fields : List (String × Term))
    (h : AllNamesFields (fun name => Text.IsBracketFree name.toList) fields) :
    Text.Nests (bracketDepthFields fields)
      (", ".toList.intercalate ((renderFields fields).map String.toList)) := by
  match fields, h with
  | [], _ => exact Text.nests_of_isBracketFree (fun c hc => nomatch hc)
  | (name, t) :: fields, ⟨hname, ht, hfields⟩ =>
      have hsep : Text.Nests 0 "=".toList := Text.nests_of_isBracketFree (by decide)
      have hfield := ((Text.nests_of_isBracketFree hname).append hsep).append (nests_render t ht)
      rw [Nat.max_zero, Nat.zero_max] at hfield
      have hrest := nests_renderFields fields hfields
      cases fields with
      | nil =>
          simp only [bracketDepthFields, renderFields, List.map_cons, List.map_nil, Nat.max_zero,
            List.intercalate_singleton, String.toList_append]
          exact hfield
      | cons next fields =>
          refine Text.Nests.intercalate (by decide) ?_ hrest
          rw [String.toList_append, String.toList_append]
          exact hfield

/-- The brackets of some rendered terms. -/
theorem nests_renderItems (items : List Term)
    (h : AllNamesItems (fun name => Text.IsBracketFree name.toList) items) :
    Text.Nests (bracketDepthItems items)
      (", ".toList.intercalate ((renderItems items).map String.toList)) := by
  match items, h with
  | [], _ => exact Text.nests_of_isBracketFree (fun c hc => nomatch hc)
  | t :: items, ⟨ht, hitems⟩ =>
      have hrest := nests_renderItems items hitems
      cases items with
      | nil =>
          simp only [bracketDepthItems, renderItems, List.map_cons, List.map_nil, Nat.max_zero,
            List.intercalate_singleton]
          exact nests_render t ht
      | cons next items =>
          exact Text.Nests.intercalate (by decide) (nests_render t ht) hrest

end

/-! ## Terms that render alike -/

/-- Every term but the sentinel ends with a closing bracket. -/
theorem render_closes {t : Term} (h : t.isSentinel = false) :
    ∃ (body : List Char) (c : Char), Text.isClosing c = true ∧ t.render.toList = body ++ [c] := by
  cases t with
  | sentinel => exact nomatch h
  | call name =>
      refine ⟨name.toList ++ ['('], ')', rfl, ?_⟩
      rw [render, String.toList_append, List.append_assoc]
      rfl
  | placeholder name => exact ⟨_, ')', rfl, String.toList_append⟩
  | record name fields => exact ⟨_, ')', rfl, by rw [render, String.toList_append]; rfl⟩
  | list item => exact ⟨_, ']', rfl, by rw [render, String.toList_append]; rfl⟩
  | set item => exact ⟨_, '\x7d', rfl, by rw [render, String.toList_append]; rfl⟩
  | tuple items => exact ⟨_, ')', rfl, by rw [render, String.toList_append]; rfl⟩
  | dict key value => exact ⟨_, '\x7d', rfl, by rw [render, String.toList_append]; rfl⟩

/-- Only the sentinel renders as the sentinel. -/
theorem render_eq_sentinel_iff (t : Term) : t.render = CallFill.sentinel ↔ t.isSentinel = true := by
  constructor
  · intro h
    cases ht : t.isSentinel with
    | true => rfl
    | false =>
        obtain ⟨body, c, hc, hbody⟩ := render_closes ht
        have hfree : Text.IsBracketFree (body ++ [c]) := by
          rw [← hbody, h]
          decide
        have hplain := (hfree c (List.mem_append_right _ List.mem_cons_self)).2
        rw [hc] at hplain
        exact hplain.symm
  · intro h
    cases t with
    | sentinel => rw [render]
    | _ => exact nomatch h

end Term

namespace Synthesis

variable (s : Synthesis)

/-- An alias symbol around the sentinel, unless the name that refers to it is a builtin's. -/
def aliasTerm? (symbol : SymbolId) : Option Term :=
  match s.reference symbol with
  | none => none
  | some name => if s.config.isBuiltinName name then none else some (.placeholder name)

/-- The term of a field: an alias around the sentinel where only the alias is known. -/
def fieldTerm (field : Field) (t : Term) : Term :=
  if t.isSentinel then (field.aliasSymbol.bind s.aliasTerm?).getD t else t

/-- The term of a record; `below` gives the terms of its fields. -/
def recordTerm (below : TypeId → Option String → Term) (symbol : SymbolId)
    (fields : List Field) : Term :=
  if !s.options.recursive || fields.isEmpty then .sentinel
  else
    match s.reference symbol with
    | none => .sentinel
    | some name =>
      .record name (fields.map fun f => (f.name, s.fieldTerm f (below f.type f.defaultText)))

/-- The term of a collection; `below` gives the terms of its elements. -/
def collectionTerm (below : TypeId → Option String → Term) :
    CollectionKind → List TypeId → Term
  | .list, item :: _ => .list (below item none)
  | .set, item :: _ => .set (below item none)
  | .tuple, [item] => .tuple [below item none]
  | .tuple, items@(_ :: _ :: _) => .tuple (items.map (below · none))
  | .dict, key :: value :: _ => .dict (below key none) (below value none)
  | _, _ => .sentinel

/-- The term of a builtin type. -/
def builtinTerm (type : TypeId) (symbol : Option SymbolId) (name : String) : Term :=
  if !s.options.useConstructors || s.host.needsArguments type then .sentinel
  else .call ((symbol.bind s.reference).getD name)

/-- The term of an alias. -/
def aliasTerm (symbol : Option SymbolId) (name : String) : Term :=
  if s.config.isBuiltinName name then .sentinel
  else
    match symbol with
    | some symbol => (s.aliasTerm? symbol).getD .sentinel
    | none => .placeholder name

/-- The term of a class that is no record. -/
def plainTerm (type : TypeId) (symbol : SymbolId) : Term :=
  if s.options.useConstructors && s.host.needsArguments type then .sentinel
  else
    match s.reference symbol with
    | some name => .call name
    | none => .sentinel

/-- The term of a type that is no union; `below` gives the terms of its parts. -/
def atomTerm (below : TypeId → Option String → Term) (type : TypeId) : Term :=
  match s.host.shape type with
  | .record symbol fields => s.recordTerm below symbol fields
  | .collection kind elements => collectionTerm below kind elements
  | .builtin symbol name => s.builtinTerm type symbol name
  | .typeAlias symbol name => s.aliasTerm symbol name
  | .plain symbol => s.plainTerm type symbol
  | .union _ | .literal | .anyLike _ | .noneType | .unknown => .sentinel

/-- The term of a type with so many levels left. -/
def termWithin : Nat → TypeId → Option String → Term
  | 0, _, _ => .sentinel
  | levels + 1, type, existing =>
    match (s.host.shape type).members? with
    | some members =>
      match s.pick members existing with
      | some leaf => s.atomTerm (termWithin levels) leaf
      | none => .sentinel
    | none => s.atomTerm (termWithin levels) type

/-- The term of the value of a type at a depth. -/
def term (type : TypeId) (depth : Nat) (existing : Option String := none) : Term :=
  s.termWithin (s.config.maxDepth + 1 - depth) type existing

/-! ## Unions are settled first -/

/-- The type that is written for a type: the leaf that stands for a union, or the type itself. -/
def leaf? (type : TypeId) (existing : Option String) : Option TypeId :=
  match (s.host.shape type).members? with
  | some members => s.pick members existing
  | none => some type

/-- A level is for one type: a leaf of a union is chosen first, and what stands below has the rest.
-/
theorem termWithin_succ (levels : Nat) (type : TypeId) (existing : Option String) :
    s.termWithin (levels + 1) type existing =
      (s.leaf? type existing).elim .sentinel (s.atomTerm (s.termWithin levels)) := by
  rw [termWithin, leaf?]
  cases (s.host.shape type).members? with
  | none => rfl
  | some members => cases hpick : s.pick members existing <;> simp only [hpick, Option.elim]

/-- The values have the same levels. -/
theorem valueWithin_succ (levels : Nat) (type : TypeId) (existing : Option String) :
    s.valueWithin (levels + 1) type existing =
      (s.leaf? type existing).elim .unknown (s.atomValue (s.valueWithin levels)) := by
  rw [valueWithin, leaf?]
  cases (s.host.shape type).members? with
  | none => rfl
  | some members => cases hpick : s.pick members existing <;> simp only [hpick, Option.elim]

/-! ## The text of a value is its term, rendered -/

theorem aliasWrap_eq_aliasTerm? (symbol : SymbolId) :
    (s.aliasWrap symbol).map Value.text = (s.aliasTerm? symbol).map Term.render := by
  rw [aliasWrap, aliasTerm?]
  cases s.reference symbol with
  | none => rfl
  | some name =>
      by_cases hb : s.config.isBuiltinName name = true
      · simp only [if_pos hb, Option.map_none]
      · simp only [if_neg hb, Option.map_some, Term.render]

/-- Where an alias wrap replaces a value, its term replaces the value's term. -/
theorem getD_aliasWrap_text (alias? : Option SymbolId) (v : Value) (t : Term)
    (h : v.text = t.render) :
    ((alias?.bind s.aliasWrap).getD v).text = ((alias?.bind s.aliasTerm?).getD t).render := by
  cases alias? with
  | none => exact h
  | some symbol =>
      have hw := s.aliasWrap_eq_aliasTerm? symbol
      simp only [Option.bind_some]
      cases hv : s.aliasWrap symbol with
      | none =>
          rw [hv, Option.map_none] at hw
          rw [Option.map_eq_none_iff.1 hw.symm]
          exact h
      | some w =>
          rw [hv, Option.map_some] at hw
          obtain ⟨u, hu, hr⟩ := Option.map_eq_some_iff.1 hw.symm
          rw [hu]
          exact hr.symm

/-- Whether a value is the sentinel can be told from its term. -/
theorem isSentinel_eq (v : Value) (t : Term) (h : v.text = t.render) :
    v.isSentinel = t.isSentinel := by
  rw [Value.isSentinel, h]
  rw [Bool.eq_iff_iff, decide_eq_true_iff]
  exact t.render_eq_sentinel_iff

/-- The value of a field is the rendered term. -/
theorem fieldValue_text (field : Field) (v : Value) (t : Term) (h : v.text = t.render) :
    (s.fieldValue field v).text = (s.fieldTerm field t).render := by
  rw [fieldValue, fieldTerm, isSentinel_eq v t h]
  cases t.isSentinel with
  | true => exact s.getD_aliasWrap_text field.aliasSymbol v t h
  | false => exact h

section Parts

variable {value : TypeId → Option String → Value} {term : TypeId → Option String → Term}
  (hbelow : ∀ t e, (value t e).text = (term t e).render)

include hbelow

theorem recordValue_text (symbol : SymbolId) (fields : List Field) :
    (s.recordValue value symbol fields).text = (s.recordTerm term symbol fields).render := by
  rw [recordValue, recordTerm]
  by_cases hflat : (!s.options.recursive || fields.isEmpty) = true
  · rw [if_pos hflat, if_pos hflat, Term.render]
    rfl
  · rw [if_neg hflat, if_neg hflat]
    cases s.reference symbol with
    | none =>
        rw [Term.render]
        rfl
    | some name =>
        have hfield : ∀ f : Field,
            f.name ++ "=" ++ (s.fieldValue f (value f.type f.defaultText)).text =
              f.name ++ "=" ++ (s.fieldTerm f (term f.type f.defaultText)).render := by
          intro f
          rw [s.fieldValue_text f _ _ (hbelow f.type f.defaultText)]
        simp only [Term.render, Term.renderFields_eq_map, List.map_map, Function.comp_def, hfield]

theorem collectionValue_text (kind : CollectionKind) (elements : List TypeId) :
    (collectionValue value kind elements).text = (collectionTerm term kind elements).render := by
  match kind, elements with
  | .list, item :: _ =>
      show "[" ++ (value item none).text ++ "]" = (Term.list (term item none)).render
      rw [Term.render, hbelow]
  | .set, item :: _ =>
      show "\x7b" ++ (value item none).text ++ "\x7d" = (Term.set (term item none)).render
      rw [Term.render, hbelow]
  | .tuple, [item] =>
      show "(" ++ (value item none).text ++ ")" = (Term.tuple [term item none]).render
      rw [Term.render, hbelow, Term.renderItems_eq_map]
      rfl
  | .tuple, a :: b :: rest =>
      have hitem : ∀ t : TypeId, (value t none).text = (term t none).render :=
        fun t => hbelow t none
      simp only [collectionValue, collectionTerm, Term.render, Term.renderItems_eq_map,
        List.map_map, Function.comp_def, hitem]
  | .dict, key :: item :: _ =>
      show "\x7b" ++ (value key none).text ++ ": " ++ (value item none).text ++ "\x7d" =
        (Term.dict (term key none) (term item none)).render
      rw [Term.render, hbelow, hbelow]
  | .list, [] | .set, [] | .tuple, [] | .dict, [] | .dict, [_] | .other, _ =>
      simp only [collectionValue, collectionTerm, Term.render]
      rfl

end Parts

theorem builtinValue_text (type : TypeId) (symbol : Option SymbolId) (name : String) :
    (s.builtinValue type symbol name).text = (s.builtinTerm type symbol name).render := by
  rw [builtinValue.eq_def, builtinTerm]
  by_cases hno : (!s.options.useConstructors || s.host.needsArguments type) = true
  · rw [if_pos hno, if_pos hno, Term.render]
    rfl
  · rw [if_neg hno, if_neg hno, Term.render]
    cases symbol with
    | none => rfl
    | some symbol => rfl

theorem aliasValue_text (symbol : Option SymbolId) (name : String) :
    (s.aliasValue symbol name).text = (s.aliasTerm symbol name).render := by
  rw [aliasValue.eq_def, aliasTerm.eq_def]
  by_cases hb : s.config.isBuiltinName name = true
  · rw [if_pos hb, if_pos hb, Term.render]
    rfl
  · rw [if_neg hb, if_neg hb]
    cases symbol with
    | none => rw [Term.render]
    | some symbol =>
        exact s.getD_aliasWrap_text (some symbol) .unknown .sentinel (by rw [Term.render]; rfl)

theorem plainValue_text (type : TypeId) (symbol : SymbolId) :
    (s.plainValue type symbol).text = (s.plainTerm type symbol).render := by
  rw [plainValue, plainTerm, reference]
  by_cases hno : (s.options.useConstructors && s.host.needsArguments type) = true
  · rw [if_pos hno, if_pos hno, Term.render]
    rfl
  · rw [if_neg hno, if_neg hno]
    cases s.host.visibleAlias s.file symbol with
    | some name =>
        simp only [Term.render]
    | none =>
        cases s.host.symbol symbol with
        | some sym => simp only [Option.map_some, Term.render]
        | none =>
            simp only [Option.map_none, Term.render]
            rfl

/-- The value of a type that is no union is the rendered term if those below it are. -/
theorem atomValue_text {value : TypeId → Option String → Value}
    {term : TypeId → Option String → Term} (hbelow : ∀ t e, (value t e).text = (term t e).render)
    (type : TypeId) : (s.atomValue value type).text = (s.atomTerm term type).render := by
  rw [atomValue, atomTerm]
  cases s.host.shape type with
  | record symbol fields => exact s.recordValue_text hbelow symbol fields
  | collection kind elements => exact collectionValue_text hbelow kind elements
  | builtin symbol name => exact s.builtinValue_text type symbol name
  | typeAlias symbol name => exact s.aliasValue_text symbol name
  | plain symbol => exact s.plainValue_text type symbol
  | _ =>
      simp only [Term.render]
      rfl

/-- Values are rendered terms: the induction is on the levels, and each rule for values has one for
terms. -/
theorem valueWithin_text (levels : Nat) (type : TypeId) (existing : Option String) :
    (s.valueWithin levels type existing).text = (s.termWithin levels type existing).render := by
  induction levels generalizing type existing with
  | zero =>
      rw [termWithin, Term.render]
      rfl
  | succ levels ih =>
      rw [valueWithin_succ, termWithin_succ]
      cases s.leaf? type existing with
      | none =>
          show sentinel = Term.sentinel.render
          rw [Term.render]
      | some leaf => exact s.atomValue_text ih leaf

/-- The text of a value is its term, rendered. -/
theorem value_text (type : TypeId) (depth : Nat) (existing : Option String) :
    (s.value type depth existing).text = (s.term type depth existing).render :=
  s.valueWithin_text _ type existing

end Synthesis

end CallFill
