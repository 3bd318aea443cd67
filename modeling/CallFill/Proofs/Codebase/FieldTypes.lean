import CallFill.ProjectHost
import CallFill.Proofs.Synthesis.Refinement
import CallFill.Proofs.Typing.Annotations

/-!
# The types of fields

Typing a codebase only adds to the table of types, so a handle that was given out keeps its meaning
(`TypeTable.node_eq_of_prefix`). What a field is noted to be when it is typed, an alias or not, is
then what its type is in the project (`Project.aliasFields_host`). A project is therefore a host on
which raising the bound only refines what is written (`Project.value_refines`).
-/

namespace CallFill

/-! ## Aliases of fields -/

/-- The alias that a field names is its type. -/
def TypedField.AliasIsType (types : TypeTable) (f : TypedField) : Prop :=
  ∀ id, f.aliasSymbol = some id → types.node f.type = .typeAlias id

/-- What is known of a type stays known. -/
theorem TypeTable.node_eq_of_prefix {types types' : TypeTable} (h : types.nodes <+: types'.nodes)
    {type : TypeId} {node : TypeNode} (hnode : types.node type = node) (hknown : node ≠ .unknown) :
    types'.node type = node := by
  rcases Nat.lt_or_ge type.index types.nodes.length with hlt | hge
  · exact (node_of_extends h hlt).trans hnode
  · exact absurd (hnode.symm.trans (node_of_length_le hge)) hknown

/-- The alias of a field stays its type while the tables grow. -/
theorem lasting_aliasIsType (f : TypedField) : Lasting fun t => f.AliasIsType t.types :=
  fun _ _ hwithin hf id hid =>
    TypeTable.node_eq_of_prefix hwithin.types (hf id hid) TypeNode.noConfusion

/-- The aliases of the fields of a class stay their types while the tables grow. -/
theorem lasting_aliases (c : TypedClass) :
    Lasting fun t => ∀ f ∈ c.fields, f.AliasIsType t.types :=
  fun s t hwithin h f hf => lasting_aliasIsType f s t hwithin (h f hf)

theorem TypeNode.eq_typeAlias_of_aliasSymbol? {node : TypeNode} {id : SymbolId}
    (h : node.aliasSymbol? = some id) : node = .typeAlias id := by
  cases node with
  | typeAlias symbol => rw [Option.some.inj h]
  | _ => exact nomatch h

namespace Codebase

variable (b : Codebase)

/-- The alias of a field is noted when the field is typed, and is its type then. -/
theorem ensures_aliasIsType (file : FileId) (f : FieldDef) :
    Ensures (fun _ => True) (fun t typed => typed.AliasIsType t.types) (b.typeField file f) := by
  rw [typeField]
  refine (b.settles_typeWithin _ file _).ensures.bind fun type t ht => ?_
  exact ⟨.refl t, ht, fun id hid => TypeNode.eq_typeAlias_of_aliasSymbol? hid⟩

/-- In a typed class, the alias of every field is its type. -/
theorem ensures_aliases (c : ClassEntry) :
    Ensures (fun _ => True) (fun t typed => ∀ f ∈ typed.fields, f.AliasIsType t.types)
      (b.typeClass c) := by
  have hfields := Ensures.mapM (fun _ f => lasting_aliasIsType f)
    fun f (_ : f ∈ c.definition.fields) => b.ensures_aliasIsType c.file f
  have hmethods := (Settles.mapM (b.settles_typeFunction c.file) c.definition.methods).ensures
  refine hfields.bind fun fields => (hmethods.keep ?_).bind fun methods => ensures_pure ?_
  · exact fun s t hwithin h => h.imp fun _ f hf => lasting_aliasIsType f s t hwithin hf
  · rintro t ⟨-, hfields, -⟩
    exact forall_of_forall₂_right hfields

/-- In all typed classes, the alias of every field is its type. -/
theorem ensures_allAliases :
    Ensures (fun _ => True)
      (fun t typed => ∀ c ∈ typed.1, ∀ f ∈ c.fields, f.AliasIsType t.types) b.typeAll := by
  have hclasses := Ensures.mapM (fun _ c => lasting_aliases c)
    fun c (_ : c ∈ b.classes) => b.ensures_aliases c
  have hfunctions := (Settles.mapM
    (fun f : FunctionEntry => b.settles_typeFunction f.file f.definition) b.functions).ensures
  refine hclasses.bind fun classes => (hfunctions.keep ?_).bind fun functions => ensures_pure ?_
  · exact fun s t hwithin h => h.imp fun _ c hc => lasting_aliases c s t hwithin hc
  · rintro t ⟨-, hclasses, -⟩
    exact forall_of_forall₂_right hclasses

end Codebase

namespace Project

variable {p : Project}

/-- What holds of the fields of all classes, as constructors take them, holds of a record's. -/
theorem forall_recordFieldsWithin {P : Field → Prop}
    (h : ∀ c ∈ p.typedClasses, ∀ f ∈ c.fields, P (constructorField f)) (levels : Nat)
    (id : ClassId) : ∀ entry ∈ p.recordFieldsWithin levels id, P entry.2 := by
  induction levels generalizing id with
  | zero => exact fun entry hentry => absurd hentry List.not_mem_nil
  | succ levels ih =>
      rw [recordFieldsWithin]
      have hnil : ∀ entry ∈ ([] : KeyedList String Field), P entry.2 :=
        fun entry hentry => absurd hentry List.not_mem_nil
      -- two folds: over the bases, and over the own fields that override theirs
      refine List.foldlRecOn
        (motive := fun fields : KeyedList String Field => ∀ entry ∈ fields, P entry.2) _ _ ?_ ?_
      · refine List.foldlRecOn
          (motive := fun fields : KeyedList String Field => ∀ entry ∈ fields, P entry.2) _ _ hnil ?_
        intro fields hfields base _
        split
        · exact fun entry hentry =>
            (KeyedList.mem_putAll hentry).elim (hfields entry) (ih base entry)
        · exact hfields
      · intro fields hfields f hf entry hentry
        have hfield : P (constructorField f) := by
          cases hclass : p.typedClass? id with
          | none =>
              rw [hclass] at hf
              exact absurd hf List.not_mem_nil
          | some c =>
              rw [hclass] at hf
              exact h c (List.mem_of_getElem? hclass) f hf
        rw [withField] at hentry
        split at hentry
        · exact hfields entry hentry
        · split at hentry
          · rcases KeyedList.mem_put hentry with hentry | rfl
            · exact hfields entry hentry
            · exact hfield
          · exact hfields entry (List.mem_filter.1 hentry).1

/-- A type has the shape of a record only if its symbol stands for a class that is one, and then it
has the fields of this class. -/
theorem exists_record_of_shape {type : TypeId} {symbol : SymbolId} {fields : List Field}
    (h : p.shape type = .record symbol fields) :
    ∃ id, p.classOfSymbol? symbol = some id ∧ (p.recordOrigin id).isSome = true ∧
      fields = p.recordFields id := by
  rw [shape] at h
  cases hnode : p.types.node type with
  | projectClass symbol' =>
      rw [hnode] at h
      simp only [classShape] at h
      split at h
      · exact nomatch h
      · next id hclass =>
          split at h
          · next hrecord =>
              obtain ⟨rfl, rfl⟩ := TypeShape.record.inj h
              exact ⟨id, hclass, hrecord, rfl⟩
          · split at h
            · exact nomatch h
            · exact nomatch h
  | _ =>
      rw [hnode] at h
      exact nomatch h

/-- In a project, the fields of a record name an alias only where their type is that alias. -/
theorem aliasFields_host (b : Codebase) : (ofCodebase b).host.AliasFields := by
  intro type symbol fields hshape f hf id hid
  have htyped := (b.ensures_allAliases { symbols := b.symbols } trivial).2.2
  obtain ⟨c, -, -, rfl⟩ := exists_record_of_shape hshape
  obtain ⟨entry, hentry, rfl⟩ := List.mem_map.1 hf
  have hnode : (ofCodebase b).types.node entry.2.type = .typeAlias id :=
    forall_recordFieldsWithin (P := fun f => ∀ id, f.aliasSymbol = some id →
      (ofCodebase b).types.node f.type = .typeAlias id) htyped _ c entry hentry id hid
  refine ⟨(ofCodebase b).symbolName id, ?_⟩
  show (ofCodebase b).shape entry.2.type = _
  rw [shape, hnode]

/-- On the types of any project, whatever is configured and selected, raising the bound on the
levels and writing records out only refine what is written. -/
theorem value_refines (b : Codebase) (config : Config) (options : Options) (selections : Selections)
    (file : FileId) (type : TypeId) (existing : Option String) :
    (⟨(ofCodebase b).host, config, options, selections, file⟩ : Synthesis).RefinesWithBound type
      existing :=
  Synthesis.refinesWithBound (aliasFields_host b) type existing

end Project

end CallFill
