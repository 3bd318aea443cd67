import CallFill.Proofs.Synthesis.Grammar

/-!
# The names and symbols of a value

The text of a value calls names, and beside the text stands a list of symbols to be imported. The
two are built apart, so it has to be shown that they agree: every called name refers to a symbol
that is in the list or already visible in the target file, and every symbol of the list is referred
to by a called name (`Accounts`). Names and symbols are joined the same way wherever a value is put
together from others, and joining keeps the agreement (`Accounts.merge`, `Accounts.gather`); what is
left is one case for each shape of a type.
-/

namespace CallFill

open Text

namespace Term

mutual

/-- The names a term calls. -/
def callees : Term → List String
  | sentinel => []
  | call name | placeholder name => [name]
  | record name fields => name :: calleesFields fields
  | list item | set item => callees item
  | tuple items => calleesItems items
  | dict key value => callees key ++ callees value

/-- The names that the values of a record's fields call. -/
def calleesFields : List (String × Term) → List String
  | [] => []
  | (_, t) :: fields => callees t ++ calleesFields fields

/-- The names that some terms call. -/
def calleesItems : List Term → List String
  | [] => []
  | t :: items => callees t ++ calleesItems items

end

/-- A record calls what the values of its fields call. -/
theorem calleesFields_eq_flatMap (fields : List (String × Term)) :
    calleesFields fields = fields.flatMap fun f => f.2.callees := by
  induction fields with
  | nil => rw [calleesFields, List.flatMap_nil]
  | cons f fields ih => rw [calleesFields, ih, List.flatMap_cons]

/-- A collection calls what its items call. -/
theorem calleesItems_eq_flatMap (items : List Term) :
    calleesItems items = items.flatMap callees := by
  induction items with
  | nil => rw [calleesItems, List.flatMap_nil]
  | cons t items ih => rw [calleesItems, ih, List.flatMap_cons]

end Term

/-- The names a host gives for writing values can stand in source text, and its builtin types and
aliases have symbols that it knows. -/
structure Host.WellNamed (h : Host) : Prop where
  symbol : ∀ id sym, h.symbol id = some sym → IsDottedName sym.name.toList
  visibleAlias : ∀ file id name, h.visibleAlias file id = some name → IsDottedName name.toList
  field : ∀ t symbol fields, h.shape t = .record symbol fields →
    ∀ f ∈ fields, IsIdentifier f.name.toList
  builtin : ∀ t symbol name, h.shape t = .builtin symbol name →
    ∃ id sym, symbol = some id ∧ h.symbol id = some sym
  typeAlias : ∀ t symbol name, h.shape t = .typeAlias symbol name →
    ∃ id sym, symbol = some id ∧ h.symbol id = some sym

namespace Synthesis

variable (s : Synthesis)

/-- Whether an import of the target file already makes the symbol visible. -/
def IsVisible (symbol : SymbolId) : Prop :=
  (s.host.visibleAlias s.file symbol).isSome = true

/-- Called names and needed symbols agree. -/
structure Accounts (names : List String) (symbols : List SymbolId) : Prop where
  /-- No name is called without its symbol being needed or visible. -/
  called : ∀ name ∈ names, ∃ id, s.reference id = some name ∧ (id ∈ symbols ∨ s.IsVisible id)
  /-- No symbol is needed without its name being called. -/
  needed : ∀ id ∈ symbols, ∃ name ∈ names, s.reference id = some name

variable {s} {names more : List String} {symbols others : List SymbolId} {id : SymbolId}
  {name : String}

theorem accounts_nil : s.Accounts [] [] :=
  ⟨fun _ h => absurd h List.not_mem_nil, fun _ h => absurd h List.not_mem_nil⟩

/-- A name that a symbol is referred to by needs the symbol. -/
theorem accounts_reference (h : s.reference id = some name) : s.Accounts [name] [id] := by
  constructor
  · intro other hother
    rw [List.mem_singleton.1 hother]
    exact ⟨id, h, Or.inl List.mem_cons_self⟩
  · intro other hother
    rw [List.mem_singleton.1 hother]
    exact ⟨name, List.mem_cons_self, h⟩

/-- A name that an import makes visible needs none. -/
theorem accounts_visible (h : s.host.visibleAlias s.file id = some name) :
    s.Accounts [name] [] := by
  constructor
  · intro other hother
    rw [List.mem_singleton.1 hother]
    refine ⟨id, ?_, Or.inr ?_⟩
    · rw [reference, h]
    · rw [IsVisible, h]
      rfl
  · exact fun _ hid => absurd hid List.not_mem_nil

/-- Joining two values joins their accounts. -/
theorem Accounts.merge (h : s.Accounts names symbols) (h' : s.Accounts more others) :
    s.Accounts (names ++ more) (mergeSymbols symbols others) := by
  constructor
  · intro name hname
    rcases List.mem_append.1 hname with hname | hname
    · obtain ⟨id, href, hid⟩ := h.called name hname
      exact ⟨id, href, hid.imp_left fun hid => mem_mergeSymbols.2 (Or.inl hid)⟩
    · obtain ⟨id, href, hid⟩ := h'.called name hname
      exact ⟨id, href, hid.imp_left fun hid => mem_mergeSymbols.2 (Or.inr hid)⟩
  · intro id hid
    rcases mem_mergeSymbols.1 hid with hid | hid
    · obtain ⟨name, hname, href⟩ := h.needed id hid
      exact ⟨name, List.mem_append_left _ hname, href⟩
    · obtain ⟨name, hname, href⟩ := h'.needed id hid
      exact ⟨name, List.mem_append_right _ hname, href⟩

/-- Joining the values of a list one after the other. -/
theorem Accounts.gather {α : Type} {callees : α → List String} {needs : α → List SymbolId}
    (h : s.Accounts names symbols) (as : List α)
    (has : ∀ a ∈ as, s.Accounts (callees a) (needs a)) :
    s.Accounts (names ++ as.flatMap callees)
      (as.foldl (fun acc a => mergeSymbols acc (needs a)) symbols) := by
  induction as generalizing names symbols with
  | nil =>
      rw [List.flatMap_nil, List.append_nil]
      exact h
  | cons a as ih =>
      rw [List.flatMap_cons, ← List.append_assoc]
      exact ih (h.merge (has a List.mem_cons_self)) fun b hb => has b (List.mem_cons_of_mem a hb)

/-! ## One case for each shape -/

variable (s) in
/-- A term of the grammar with the symbols it needs. -/
structure Accounted (t : Term) (symbols : List SymbolId) : Prop where
  inGrammar : t.InGrammar
  accounts : s.Accounts t.callees symbols

theorem accounted_sentinel : s.Accounted .sentinel [] :=
  ⟨.sentinel, accounts_nil⟩

/-- A collection needs what its elements need. -/
theorem accounted_collectionTerm {term : TypeId → Option String → Term}
    {value : TypeId → Option String → Value}
    (hbelow : ∀ t e, s.Accounted (term t e) (value t e).symbols) (kind : CollectionKind)
    (elements : List TypeId) :
    s.Accounted (collectionTerm term kind elements)
      (collectionValue value kind elements).symbols := by
  match kind, elements with
  | .list, item :: _ => exact ⟨.list (hbelow item none).inGrammar, (hbelow item none).accounts⟩
  | .set, item :: _ => exact ⟨.set (hbelow item none).inGrammar, (hbelow item none).accounts⟩
  | .tuple, [item] =>
      constructor
      · refine .tuple (List.cons_ne_nil _ _) ?_
        intro t ht
        rw [List.mem_singleton.1 ht]
        exact (hbelow item none).inGrammar
      · show s.Accounts ((term item none).callees ++ []) (value item none).symbols
        rw [List.append_nil]
        exact (hbelow item none).accounts
  | .tuple, a :: b :: rest =>
      constructor
      · refine .tuple (List.cons_ne_nil _ _) ?_
        intro t ht
        obtain ⟨item, -, rfl⟩ := List.mem_map.1 ht
        exact (hbelow item none).inGrammar
      · have hall := (accounts_nil (s := s)).gather (a :: b :: rest)
          fun item _ => (hbelow item none).accounts
        simp only [collectionTerm, collectionValue, Term.callees, Term.calleesItems_eq_flatMap,
          List.flatMap_map, List.foldl_map]
        exact hall
  | .dict, key :: item :: _ =>
      constructor
      · exact .dict (hbelow key none).inGrammar (hbelow item none).inGrammar
      · have hkey := (accounts_nil (s := s)).merge (hbelow key none).accounts
        exact hkey.merge (hbelow item none).accounts
  | .list, [] | .set, [] | .tuple, [] | .dict, [] | .dict, [_] | .other, _ =>
      exact accounted_sentinel

section Host

variable (hnames : s.host.WellNamed)

include hnames

/-- A name to refer to a symbol by is a name of the language, with or without dots. -/
theorem isDottedName_of_reference (h : s.reference id = some name) :
    IsDottedName name.toList := by
  rw [reference] at h
  cases ha : s.host.visibleAlias s.file id with
  | some shown =>
      rw [ha] at h
      exact Option.some.inj h ▸ hnames.visibleAlias _ _ _ ha
  | none =>
      rw [ha] at h
      obtain ⟨sym, hsym, rfl⟩ := Option.map_eq_some_iff.1 h
      exact hnames.symbol _ _ hsym

/-- Where an alias wrap replaces a value, it brings its own symbol. -/
theorem accounted_getD_aliasWrap (alias? : Option SymbolId) {v : Value} {t : Term}
    (h : s.Accounted t v.symbols) :
    s.Accounted ((alias?.bind s.aliasTerm?).getD t) ((alias?.bind s.aliasWrap).getD v).symbols := by
  cases alias? with
  | none => exact h
  | some id =>
      rw [Option.bind_some, Option.bind_some, aliasTerm?, aliasWrap]
      cases hr : s.reference id with
      | none => exact h
      | some name =>
          by_cases hb : s.config.isBuiltinName name = true
          · simp only [if_pos hb]
            exact h
          · simp only [if_neg hb]
            exact ⟨.placeholder (isDottedName_of_reference hnames hr), accounts_reference hr⟩

/-- The alias of a field is called and needed together. -/
theorem accounted_fieldTerm (field : Field) {v : Value} {t : Term} (htext : v.text = t.render)
    (h : s.Accounted t v.symbols) :
    s.Accounted (s.fieldTerm field t) (s.fieldValue field v).symbols := by
  rw [fieldTerm, fieldValue, isSentinel_eq v t htext]
  cases t.isSentinel with
  | true => exact accounted_getD_aliasWrap hnames field.aliasSymbol h
  | false => exact h

/-- A record needs its own symbol and what its fields need. -/
theorem accounted_recordTerm {term : TypeId → Option String → Term}
    {value : TypeId → Option String → Value} (htext : ∀ t e, (value t e).text = (term t e).render)
    (hbelow : ∀ t e, s.Accounted (term t e) (value t e).symbols) {symbol : SymbolId}
    {fields : List Field} (hfields : ∀ f ∈ fields, IsIdentifier f.name.toList) :
    s.Accounted (s.recordTerm term symbol fields) (s.recordValue value symbol fields).symbols := by
  rw [recordTerm, recordValue]
  by_cases hflat : (!s.options.recursive || fields.isEmpty) = true
  · rw [if_pos hflat, if_pos hflat]
    exact accounted_sentinel
  · rw [if_neg hflat, if_neg hflat]
    cases hr : s.reference symbol with
    | none => exact accounted_sentinel
    | some name =>
        have hfield : ∀ f ∈ fields, s.Accounted (s.fieldTerm f (term f.type f.defaultText))
            (s.fieldValue f (value f.type f.defaultText)).symbols :=
          fun f _ => accounted_fieldTerm hnames f (htext _ _) (hbelow _ _)
        constructor
        · refine .record (isDottedName_of_reference hnames hr) ?_ ?_ ?_
          · intro hnil
            rw [List.map_eq_nil_iff.1 hnil] at hflat
            exact hflat (Bool.or_true _)
          · intro g hg
            obtain ⟨f, hf, rfl⟩ := List.mem_map.1 hg
            exact hfields f hf
          · intro g hg
            obtain ⟨f, hf, rfl⟩ := List.mem_map.1 hg
            exact (hfield f hf).inGrammar
        · have hall := (accounts_reference hr).gather fields fun f hf => (hfield f hf).accounts
          simp only [Term.callees, Term.calleesFields_eq_flatMap, List.flatMap_map,
            List.foldl_map]
          exact hall

/-- A builtin type is called by the name of its symbol, which is needed. -/
theorem accounted_builtinTerm {type : TypeId} {symbol : Option SymbolId}
    (hshape : s.host.shape type = .builtin symbol name) :
    s.Accounted (s.builtinTerm type symbol name) (s.builtinValue type symbol name).symbols := by
  obtain ⟨id, sym, rfl, hsym⟩ := hnames.builtin type symbol name hshape
  rw [builtinTerm, builtinValue]
  by_cases hno : (!s.options.useConstructors || s.host.needsArguments type) = true
  · rw [if_pos hno, if_pos hno]
    exact accounted_sentinel
  · rw [if_neg hno, if_neg hno]
    obtain ⟨shown, hr⟩ : ∃ shown, s.reference id = some shown := by
      rw [reference, hsym]
      cases s.host.visibleAlias s.file id with
      | some shown => exact ⟨shown, rfl⟩
      | none => exact ⟨sym.name, rfl⟩
    rw [Option.bind_some, hr]
    exact ⟨.call (isDottedName_of_reference hnames hr), accounts_reference hr⟩

/-- An alias is called by its name and needs its symbol. -/
theorem accounted_aliasTerm {type : TypeId} {symbol : Option SymbolId}
    (hshape : s.host.shape type = .typeAlias symbol name) :
    s.Accounted (s.aliasTerm symbol name) (s.aliasValue symbol name).symbols := by
  obtain ⟨id, sym, rfl, -⟩ := hnames.typeAlias type symbol name hshape
  rw [aliasTerm, aliasValue]
  by_cases hb : s.config.isBuiltinName name = true
  · rw [if_pos hb, if_pos hb]
    exact accounted_sentinel
  · rw [if_neg hb, if_neg hb]
    exact accounted_getD_aliasWrap hnames (some id) (v := .unknown) accounted_sentinel

/-- A class is called by a visible alias, which needs nothing, or by its own name, which needs its
symbol. -/
theorem accounted_plainTerm (type : TypeId) (symbol : SymbolId) :
    s.Accounted (s.plainTerm type symbol) (s.plainValue type symbol).symbols := by
  rw [plainTerm, plainValue]
  by_cases hno : (s.options.useConstructors && s.host.needsArguments type) = true
  · rw [if_pos hno, if_pos hno]
    exact accounted_sentinel
  · rw [if_neg hno, if_neg hno]
    cases ha : s.host.visibleAlias s.file symbol with
    | some name =>
        have hr : s.reference symbol = some name := by rw [reference, ha]
        rw [hr]
        exact ⟨.call (hnames.visibleAlias _ _ _ ha), accounts_visible ha⟩
    | none =>
        cases hsym : s.host.symbol symbol with
        | some sym =>
            have hr : s.reference symbol = some sym.name := by rw [reference, ha, hsym]; rfl
            rw [hr]
            exact ⟨.call (hnames.symbol _ _ hsym), accounts_reference hr⟩
        | none =>
            have hr : s.reference symbol = none := by rw [reference, ha, hsym]; rfl
            rw [hr]
            exact accounted_sentinel

/-- What is written for a type that is no union is accounted for if what stands below it is. -/
theorem accounted_atomTerm {term : TypeId → Option String → Term}
    {value : TypeId → Option String → Value} (htext : ∀ t e, (value t e).text = (term t e).render)
    (hbelow : ∀ t e, s.Accounted (term t e) (value t e).symbols) (type : TypeId) :
    s.Accounted (s.atomTerm term type) (s.atomValue value type).symbols := by
  rw [atomTerm, atomValue]
  cases hshape : s.host.shape type with
  | record symbol fields =>
      exact accounted_recordTerm hnames htext hbelow (hnames.field type symbol fields hshape)
  | collection kind elements => exact accounted_collectionTerm hbelow kind elements
  | builtin symbol name => exact accounted_builtinTerm hnames hshape
  | typeAlias symbol name => exact accounted_aliasTerm hnames hshape
  | plain symbol => exact accounted_plainTerm hnames type symbol
  | _ => exact accounted_sentinel

/-- So the term of any type is, however many levels are left. -/
theorem accounted_termWithin (levels : Nat) (type : TypeId) (existing : Option String) :
    s.Accounted (s.termWithin levels type existing)
      (s.valueWithin levels type existing).symbols := by
  induction levels generalizing type existing with
  | zero => exact accounted_sentinel
  | succ levels ih =>
      rw [termWithin_succ, valueWithin_succ]
      cases s.leaf? type existing with
      | none => exact accounted_sentinel
      | some leaf => exact accounted_atomTerm hnames (s.valueWithin_text levels) ih leaf

end Host

/-! ## Every value is accounted for -/

/-- The text of a value is the rendering of one term of the grammar and of no other. Every name the
term calls refers to a symbol that the value needs or that is visible already, and every symbol the
value needs is referred to by a name the term calls. -/
theorem value_accounted (hnames : s.host.WellNamed) (type : TypeId) (depth : Nat)
    (existing : Option String) :
    ∃ t : Term, t.InGrammar ∧ (s.value type depth existing).text = t.render ∧
      (∀ u : Term, u.InGrammar → (s.value type depth existing).text = u.render → u = t) ∧
      (∀ name ∈ t.callees, ∃ id, s.reference id = some name ∧
        (id ∈ (s.value type depth existing).symbols ∨ s.IsVisible id)) ∧
      ∀ id ∈ (s.value type depth existing).symbols,
        ∃ name ∈ t.callees, s.reference id = some name := by
  have h := accounted_termWithin hnames (s.config.maxDepth + 1 - depth) type existing
  have htext := s.value_text type depth existing
  refine ⟨_, h.inGrammar, htext, ?_, h.accounts.called, h.accounts.needed⟩
  intro u hu heq
  exact hu.eq_of_render_eq h.inGrammar (heq.symm.trans htext)

/-- An order with a field that only an alias is known of, a date that an import makes visible, and
a list of tags. -/
def order : Synthesis where
  host := {
    shape := fun t =>
      match t.index with
      | 0 => .record ⟨0⟩ [
          { name := "id", type := ⟨1⟩, aliasSymbol := some ⟨2⟩ },
          { name := "at", type := ⟨2⟩ },
          { name := "tags", type := ⟨3⟩ }]
      | 1 => .builtin (some ⟨1⟩) "int"
      | 2 => .plain ⟨3⟩
      | 3 => .collection .list [⟨4⟩]
      | _ => .typeAlias (some ⟨4⟩) "Tag"
    displayName := fun _ => "m.Order"
    symbolOf := fun _ => none
    symbol := fun id =>
      match id.index with
      | 0 => some ⟨"Order", "m.Order", "m", .classType⟩
      | 1 => some ⟨"int", "int", "builtins", .builtin⟩
      | 2 => some ⟨"UserId", "m.UserId", "m", .typeAlias⟩
      | 3 => some ⟨"date", "datetime.date", "datetime", .external⟩
      | _ => some ⟨"Tag", "m.Tag", "m", .typeAlias⟩
    provenance := fun _ => some .own
    needsArguments := fun _ => false
    lookup := fun _ _ => none
    visibleAlias := fun _ id => if id.index = 3 then some "dt.date" else none
    callee := fun _ => none }
  config := Config.default
  options := {}
  selections := []
  file := ⟨0⟩

/-- The names of the example can stand in source text. -/
theorem wellNamed_order : order.host.WellNamed := by
  refine ⟨?_, ?_, ?_, ?_, ?_⟩
  · intro id sym hsym
    simp only [order] at hsym
    split at hsym <;> exact Option.some.inj hsym ▸ (by decide)
  · intro file id name hname
    simp only [order] at hname
    split at hname
    · exact Option.some.inj hname ▸ (by decide)
    · exact nomatch hname
  · intro t symbol fields hshape f hf
    simp only [order] at hshape
    split at hshape
    · obtain ⟨-, rfl⟩ := TypeShape.record.inj hshape
      revert f
      decide
    all_goals exact nomatch hshape
  · intro t symbol name hshape
    simp only [order] at hshape
    split at hshape
    · exact nomatch hshape
    · obtain ⟨rfl, -⟩ := TypeShape.builtin.inj hshape
      exact ⟨⟨1⟩, _, rfl, rfl⟩
    all_goals exact nomatch hshape
  · intro t symbol name hshape
    simp only [order] at hshape
    split at hshape
    · exact nomatch hshape
    · exact nomatch hshape
    · exact nomatch hshape
    · exact nomatch hshape
    · obtain ⟨rfl, -⟩ := TypeShape.typeAlias.inj hshape
      exact ⟨⟨4⟩, _, rfl, rfl⟩

/-- The date is called by the alias that is visible and needs no import; the order, the alias of its
field and the tags are needed. -/
theorem order_accounted :
    order.host.WellNamed ∧
    order.value ⟨0⟩ 0 =
      { text := "Order(id=UserId(...), at=dt.date(), tags=[Tag(...)])"
        symbols := [⟨0⟩, ⟨2⟩, ⟨4⟩] } ∧
    ∃ t : Term, t.InGrammar ∧ (order.value ⟨0⟩ 0).text = t.render ∧
      (∀ u : Term, u.InGrammar → (order.value ⟨0⟩ 0).text = u.render → u = t) ∧
      (∀ name ∈ t.callees, ∃ id, order.reference id = some name ∧
        (id ∈ (order.value ⟨0⟩ 0).symbols ∨ order.IsVisible id)) ∧
      ∀ id ∈ (order.value ⟨0⟩ 0).symbols, ∃ name ∈ t.callees, order.reference id = some name :=
  ⟨wellNamed_order, by decide +kernel, value_accounted wellNamed_order ⟨0⟩ 0 none⟩

end Synthesis

end CallFill
