import CallFill.Proofs.Codebase.FieldTypes
import CallFill.Proofs.Population.Binding
import CallFill.Proofs.Synthesis.Term

/-!
# Nested constructor calls

Within a value, a record is written as a call of its constructor that gives every field by its name
(`Synthesis.WritesRecords`). What the constructor takes is said elsewhere: the fields only
where the class has no initializer of its own (`Project.takesFields_iff`). So the nested calls of a
class without one are calls that its constructor accepts, at any depth in a value
(`Project.nested_call_accepted`); of the others only those are where the initializer declares what
the fields say, and nothing makes it (`Project.not_takesFields_of_initializer`).
-/

namespace CallFill

namespace Synthesis

variable {s : Synthesis} {name : String} {args : List (String × Term)} {t : Term}

/-! ## What nested calls give -/

/-- Every record constructor call in a term is written for a type that is a record: it calls what
refers to the record's symbol, and its keywords are the record's fields. -/
def WritesRecords (s : Synthesis) (t : Term) : Prop :=
  ∀ name args, (Term.record name args).Occurs t →
    ∃ type symbol fields, s.host.shape type = .record symbol fields ∧
      s.reference symbol = some name ∧ args.map Prod.fst = fields.map Field.name

theorem writesRecords_sentinel : s.WritesRecords .sentinel :=
  fun _ _ h => nomatch h

theorem writesRecords_call : s.WritesRecords (.call name) :=
  fun _ _ h => nomatch h

theorem writesRecords_placeholder : s.WritesRecords (.placeholder name) :=
  fun _ _ h => nomatch h

/-- An alias around the sentinel writes none either. -/
theorem writesRecords_getD_aliasTerm? (symbol : Option SymbolId) (ht : s.WritesRecords t) :
    s.WritesRecords ((symbol.bind s.aliasTerm?).getD t) := by
  cases halias : symbol.bind s.aliasTerm? with
  | none => exact ht
  | some u =>
      obtain ⟨id, -, hid⟩ := Option.bind_eq_some_iff.1 halias
      rw [aliasTerm?] at hid
      split at hid
      · cases hid
      · split at hid
        · cases hid
        · rw [Option.getD_some, ← Option.some.inj hid]
          exact writesRecords_placeholder

/-- The alias of a field adds no record. -/
theorem writesRecords_fieldTerm (field : Field) (ht : s.WritesRecords t) :
    s.WritesRecords (s.fieldTerm field t) := by
  rw [fieldTerm]
  split
  · exact writesRecords_getD_aliasTerm? field.aliasSymbol ht
  · exact ht

/-- A collection writes the records that its elements write. -/
theorem writesRecords_collectionTerm {below : TypeId → Option String → Term}
    (hbelow : ∀ type existing, s.WritesRecords (below type existing)) (kind : CollectionKind)
    (elements : List TypeId) : s.WritesRecords (collectionTerm below kind elements) := by
  match kind, elements with
  | .list, item :: _ =>
      rintro name args (_ | _ | h)
      exact hbelow item none name args h
  | .set, item :: _ =>
      rintro name args (_ | _ | _ | h)
      exact hbelow item none name args h
  | .tuple, [item] =>
      intro name args h
      cases h with
      | tupleItem hmem h =>
          rw [List.mem_singleton.1 hmem] at h
          exact hbelow item none name args h
  | .tuple, a :: b :: rest =>
      intro name args h
      cases h with
      | tupleItem hmem h =>
          obtain ⟨item, -, rfl⟩ := List.mem_map.1 hmem
          exact hbelow item none name args h
  | .dict, key :: item :: _ =>
      intro name args h
      cases h with
      | key h => exact hbelow key none name args h
      | value h => exact hbelow item none name args h
  | .list, [] | .set, [] | .tuple, [] | .dict, [] | .dict, [_] | .other, _ =>
      exact writesRecords_sentinel

/-- A record's own call gives its fields; all other calls in its term stand in their values. -/
theorem writesRecords_recordTerm {below : TypeId → Option String → Term}
    (hbelow : ∀ type existing, s.WritesRecords (below type existing)) {type : TypeId}
    {symbol : SymbolId} {fields : List Field} (htype : s.host.shape type = .record symbol fields) :
    s.WritesRecords (s.recordTerm below symbol fields) := by
  rw [recordTerm]
  split
  · exact writesRecords_sentinel
  · split
    · exact writesRecords_sentinel
    · next callee hcallee =>
        intro name args h
        cases h with
        | here =>
            refine ⟨type, symbol, fields, htype, hcallee, ?_⟩
            rw [List.map_map]
            rfl
        | field hmem h =>
            obtain ⟨field, -, rfl⟩ := List.mem_map.1 hmem
            exact writesRecords_fieldTerm field (hbelow _ _) name args h

/-- What is written for a type that is no union writes a record of it, or what stands below. -/
theorem writesRecords_atomTerm {below : TypeId → Option String → Term}
    (hbelow : ∀ type existing, s.WritesRecords (below type existing)) (type : TypeId) :
    s.WritesRecords (s.atomTerm below type) := by
  rw [atomTerm]
  split
  · next symbol fields htype => exact writesRecords_recordTerm hbelow htype
  · next kind elements _ => exact writesRecords_collectionTerm hbelow kind elements
  · rw [builtinTerm]
    split
    · exact writesRecords_sentinel
    · exact writesRecords_call
  · next symbol _ _ =>
      simp only [aliasTerm]
      split
      · exact writesRecords_sentinel
      · cases symbol with
        | none => exact writesRecords_placeholder
        | some symbol => exact writesRecords_getD_aliasTerm? (some symbol) writesRecords_sentinel
  · rw [plainTerm]
    split
    · exact writesRecords_sentinel
    · split
      · exact writesRecords_call
      · exact writesRecords_sentinel
  all_goals exact writesRecords_sentinel

/-- Induction on the levels: a type is written by the rules from terms with a level less. -/
theorem writesRecords_termWithin (levels : Nat) (type : TypeId) (existing : Option String) :
    s.WritesRecords (s.termWithin levels type existing) := by
  induction levels generalizing type existing with
  | zero => exact writesRecords_sentinel
  | succ levels ih =>
      rw [termWithin_succ]
      cases s.leaf? type existing with
      | none => exact writesRecords_sentinel
      | some leaf => exact writesRecords_atomTerm ih leaf

end Synthesis

/-! ## What constructors take -/

/-- The names of the parameters that are not variadic. -/
def keywordNames (parameters : List Parameter) : List String :=
  (parameters.filter fun q => !q.isVariadic).map Parameter.name

/-- A call gives one argument to every parameter that is not variadic, and has none left over. -/
structure Signature.Accepts (s : Signature) (call : CallSite) : Prop where
  given : ∀ slot ∈ (s.bind call).slots, slot.given = if slot.parameter.isVariadic then 0 else 1
  surplus : (s.bind call).surplus = 0
  strays : (s.bind call).strays = []

namespace Frame

/-- Keywords that slots answer leave nothing over, and take nothing from the surplus. -/
theorem placeKeywords_of_answers (f : Frame) (names : List String)
    (h : ∀ name ∈ names, ∃ slot ∈ f.slots,
      slot.parameter.takesKeyword = true ∧ slot.parameter.name = name) :
    (names.foldl placeKeyword f).strays = f.strays ∧
      (names.foldl placeKeyword f).surplus = f.surplus := by
  induction names generalizing f with
  | nil => exact ⟨rfl, rfl⟩
  | cons name names ih =>
      obtain ⟨slot, hslot, htakes, hname⟩ := h name List.mem_cons_self
      have hany : f.slots.any (·.answers name) = true :=
        List.any_eq_true.2 ⟨slot, hslot, Bool.and_eq_true_iff.2 ⟨htakes, decide_eq_true hname⟩⟩
      have hplaced : (f.placeKeyword name).strays = f.strays ∧
          (f.placeKeyword name).surplus = f.surplus := by
        rw [placeKeyword, if_pos hany]
        exact ⟨rfl, rfl⟩
      have hrest := ih (f.placeKeyword name) fun other hother => by
        obtain ⟨slot, hslot, htakes, hname⟩ := h other (List.mem_cons_of_mem name hother)
        rw [slots_placeKeyword]
        refine ⟨_, List.mem_map_of_mem hslot, ?_⟩
        split
        · exact ⟨htakes, hname⟩
        · exact ⟨htakes, hname⟩
      exact ⟨hrest.1.trans hplaced.1, hrest.2.trans hplaced.2⟩

end Frame

namespace Signature

variable {s : Signature} {call : CallSite}

/-- A call that gives the names of the parameters by keyword, and nothing by position, is accepted
where these are distinct and none is positional-only. -/
theorem accepts_of_keywords (hnames : (s.parameters.map Parameter.name).Nodup)
    (hkinds : ∀ q ∈ s.parameters, q.isPositionalOnly = false) (hposition : call.positional = 0)
    (hkeywords : call.keywords = keywordNames s.parameters) : s.Accepts call := by
  -- nothing is given by position, so nothing is left over
  have hsurplus : (s.bindPositional call).surplus = 0 ∧ (s.bindPositional call).strays = [] := by
    rw [bindPositional, hposition, Frame.placePositional]
    cases hslots : (Frame.empty s.parameters).slots with
    | nil => exact ⟨rfl, rfl⟩
    | cons slot slots => exact ⟨rfl, rfl⟩
  have hanswered : ∀ name ∈ call.keywords, ∃ slot ∈ (s.bindPositional call).slots,
      slot.parameter.takesKeyword = true ∧ slot.parameter.name = name := by
    intro name hname
    rw [hkeywords] at hname
    obtain ⟨q, hq, rfl⟩ := List.mem_map.1 hname
    obtain ⟨hmem, hvariadic⟩ := List.mem_filter.1 hq
    rw [slots_bindPositional call hnames]
    refine ⟨_, List.mem_map_of_mem hmem, ?_, rfl⟩
    rw [Parameter.takesKeyword, hkinds q hmem, hvariadic]
    rfl
  obtain ⟨hstrays, hleft⟩ := Frame.placeKeywords_of_answers _ call.keywords hanswered
  refine ⟨fun slot hslot => ?_, hleft.trans hsurplus.1, hstrays.trans hsurplus.2⟩
  rw [slots_bind call hnames] at hslot
  obtain ⟨q, hq, rfl⟩ := List.mem_map.1 hslot
  have hnone : q.name ∉ s.boundByPosition call.positional := by
    rw [hposition]
    exact List.not_mem_nil
  rw [given, if_neg hnone, Nat.zero_add, Parameter.takesKeyword, hkinds q hq]
  cases hvariadic : q.isVariadic with
  | true => rfl
  | false =>
      have hdistinct : call.keywords.Nodup := by
        rw [hkeywords]
        exact (List.filter_sublist.map Parameter.name).nodup hnames
      have hgiven : q.name ∈ call.keywords := by
        rw [hkeywords]
        exact List.mem_map_of_mem (List.mem_filter.2 ⟨hq, by rw [hvariadic]; rfl⟩)
      exact List.count_eq_one_of_mem hdistinct hgiven

end Signature

namespace Project

variable {p : Project} {id : ClassId} {init : TypedFunction}

/-- A class with an initializer of its own takes its parameters. -/
theorem constructorParameters_of_initializer (h : p.ownMethod? id "__init__" = some init) :
    p.constructorParameters id = some (parametersOf init true) := by
  rw [constructorParameters, Codebase.depthBound, constructorParametersWithin, h]

/-- A record without one takes its fields. -/
theorem constructorParameters_of_record (h : p.ownMethod? id "__init__" = none)
    (hrecord : (p.recordOrigin id).isSome = true) :
    p.constructorParameters id =
      some ((p.recordFields id).map fun f => f.toParameter f.aliasSymbol) := by
  rw [Codebase.recordOrigin, Codebase.depthBound] at hrecord
  rw [constructorParameters, Codebase.depthBound, constructorParametersWithin, h]
  exact if_pos hrecord

/-- Every field of a record may be given by its name. -/
theorem keywordNames_toParameter (fields : List Field) :
    keywordNames (fields.map fun f => f.toParameter f.aliasSymbol) = fields.map Field.name := by
  rw [keywordNames, List.filter_eq_self.2, List.map_map]
  · rfl
  · intro q hq
    obtain ⟨f, -, rfl⟩ := List.mem_map.1 hq
    rfl

/-- What a class's constructor takes, variadic parameters aside, are the fields of the record. -/
def TakesFields (p : Project) (id : ClassId) : Prop :=
  (p.constructorParameters id).map keywordNames = some ((p.recordFields id).map Field.name)

instance (p : Project) (id : ClassId) : Decidable (p.TakesFields id) :=
  inferInstanceAs (Decidable (_ = _))

/-- The constructor of a record takes its fields exactly if an initializer of its own, where it has
one, declares them. -/
theorem takesFields_iff (hrecord : (p.recordOrigin id).isSome = true) :
    p.TakesFields id ↔ ∀ init, p.ownMethod? id "__init__" = some init →
      keywordNames (parametersOf init true) = (p.recordFields id).map Field.name := by
  rw [TakesFields]
  cases hown : p.ownMethod? id "__init__" with
  | none =>
      rw [constructorParameters_of_record hown hrecord, Option.map_some, keywordNames_toParameter]
      exact ⟨fun _ _ h => (nomatch h), fun _ => rfl⟩
  | some init =>
      rw [constructorParameters_of_initializer hown, Option.map_some]
      constructor
      · intro h init' hinit'
        rw [← Option.some.inj hinit']
        exact Option.some.inj h
      · intro h
        exact congrArg some (h init rfl)

/-- The constructor of a record without an initializer of its own accepts a call that gives the
fields by keyword, if their names are distinct. -/
theorem accepts_recordFields {signature : Signature} {call : CallSite}
    (hown : p.ownMethod? id "__init__" = none) (hrecord : (p.recordOrigin id).isSome = true)
    (hnames : ((p.recordFields id).map Field.name).Nodup)
    (hsignature : p.constructorSignature? id = some signature) (hposition : call.positional = 0)
    (hkeywords : call.keywords = (p.recordFields id).map Field.name) :
    signature.Accepts call := by
  obtain ⟨c, -, rfl⟩ := Option.map_eq_some_iff.1 hsignature
  have hparameters : (p.constructorParameters id).getD [] =
      (p.recordFields id).map fun f => f.toParameter f.aliasSymbol := by
    rw [constructorParameters_of_record hown hrecord]
    rfl
  refine Signature.accepts_of_keywords ?_ ?_ hposition ?_
  · show (((p.constructorParameters id).getD []).map Parameter.name).Nodup
    rw [hparameters, List.map_map]
    exact hnames
  · show ∀ q ∈ (p.constructorParameters id).getD [], q.isPositionalOnly = false
    rw [hparameters]
    intro q hq
    obtain ⟨f, -, rfl⟩ := List.mem_map.1 hq
    rfl
  · show call.keywords = keywordNames ((p.constructorParameters id).getD [])
    rw [hparameters, keywordNames_toParameter, hkeywords]

/-- Every record constructor call in a value, at any depth, is written for a class that is a record,
and gives the fields of this class by keyword. Where the class has no initializer of its own, these
are what its constructor takes, and if they are distinct it accepts the call. -/
theorem nested_call_accepted {s : Synthesis} (hhost : s.host = p.host) {type : TypeId}
    {depth : Nat} {existing : Option String} {name : String} {args : List (String × Term)}
    (h : (Term.record name args).Occurs (s.term type depth existing)) :
    ∃ symbol id, s.reference symbol = some name ∧ p.classOfSymbol? symbol = some id ∧
      (p.recordOrigin id).isSome = true ∧
      args.map Prod.fst = (p.recordFields id).map Field.name ∧
      (p.ownMethod? id "__init__" = none → p.TakesFields id ∧
        ((args.map Prod.fst).Nodup → ∀ signature call, p.constructorSignature? id = some signature →
          call.positional = 0 → call.keywords = args.map Prod.fst → signature.Accepts call)) := by
  obtain ⟨type', symbol, fields, hshape, hname, hkeywords⟩ :=
    Synthesis.writesRecords_termWithin _ type existing name args h
  rw [hhost] at hshape
  obtain ⟨id, hid, hrecord, rfl⟩ := exists_record_of_shape hshape
  refine ⟨symbol, id, hname, hid, hrecord, hkeywords, fun hown => ⟨?_, ?_⟩⟩
  · exact (takesFields_iff hrecord).2 fun init hinit => nomatch hown.symm.trans hinit
  · intro hnames signature call hsignature hposition hgiven
    rw [hkeywords] at hnames hgiven
    exact accepts_recordFields hown hrecord hnames hsignature hposition hgiven

/-! ## A record with an initializer of its own -/

/-- A record with one field, whose initializer takes one parameter of another name. -/
def ownInitializer : List (String × String) :=
  [("main.py", "from dataclasses import dataclass\n" ++
    "@dataclass\nclass Point:\n    x: int\n    def __init__(self, pair): pass\n" ++
    "def f(at: Point): pass\n")]

/-- The value for the class gives the field, which its constructor does not take. -/
theorem not_takesFields_of_initializer :
    ¬(ofSources .default ownInitializer).TakesFields ⟨0⟩ ∧
    ((⟨(ofSources .default ownInitializer).host, .default, {}, [], ⟨0⟩⟩ : Synthesis).value
      ⟨1⟩ 0).text = "Point(x=...)" := by
  decide +kernel

end Project

end CallFill
