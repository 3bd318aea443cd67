import CallFill.Proofs.Codebase.FieldTypes
import CallFill.Proofs.Codebase.FileOrder
import Mathlib.Data.Option.Basic

/-!
# The classes of symbols

The type of a class is known by a symbol, and a symbol stands for the last class that has it. What a
name resolves to is the last class at its path in its own file (`Codebase.shows_of_resolve`), and
two classes have one symbol exactly if they have one qualified name. So the symbol of a class that a
name resolves to stands for this very class exactly if no class of another file that is listed
behind it has its qualified name (`Project.classOfSymbol?_of_resolve`), and then whatever is asked
of a type that is annotated with the name is answered from this class
(`Project.shape_of_annotation`).

Of two files with one module name the first is the module, and names lead there; the symbols of its
classes stand for those of the second file nevertheless (`Project.classOfSymbol?_of_second_file`).
-/

namespace CallFill

namespace Codebase

variable {b : Codebase} {file : FileId} {name path : String} {id : ClassId} {c : ClassEntry}

/-! ## The last entry that passes a test -/

/-- The last entry that passes a test is one that passes it and has no later one that does. -/
theorem lastIndex?_eq_some_iff {α : Type} {entries : List α} {test : α → Bool} {i : Nat} :
    lastIndex? entries test = some i ↔
      (∃ a, entries[i]? = some a ∧ test a = true) ∧
        ∀ j a, entries[j]? = some a → test a = true → j ≤ i := by
  rw [lastIndex?, Option.map_eq_some_iff]
  constructor
  · rintro ⟨k, hk, rfl⟩
    obtain ⟨hlt, htest, hbefore⟩ := List.findIdx?_eq_some_iff_getElem.1 hk
    rw [List.getElem_reverse] at htest
    rw [List.length_reverse] at hlt
    refine ⟨⟨_, List.getElem?_eq_getElem (by omega), htest⟩, fun j a hj ha => ?_⟩
    obtain ⟨hjlt, rfl⟩ := List.getElem?_eq_some_iff.1 hj
    by_contra hle
    have hfails := hbefore (entries.length - 1 - j) (by omega)
    rw [List.getElem_reverse] at hfails
    have hindex : entries.length - 1 - (entries.length - 1 - j) = j := by omega
    simp only [hindex] at hfails
    exact hfails ha
  · rintro ⟨⟨a, hi, ha⟩, hlast⟩
    obtain ⟨hlt, rfl⟩ := List.getElem?_eq_some_iff.1 hi
    refine ⟨entries.length - 1 - i, List.findIdx?_eq_some_iff_getElem.2 ⟨?_, ?_, ?_⟩, by omega⟩
    · rw [List.length_reverse]
      omega
    · have hindex : entries.length - 1 - (entries.length - 1 - i) = i := by omega
      rw [List.getElem_reverse]
      simp only [hindex]
      exact ha
    · intro j hj hpasses
      rw [List.getElem_reverse] at hpasses
      have hle := hlast _ _ (List.getElem?_eq_getElem (by omega)) hpasses
      omega

/-- A class is the last that passes a test exactly if its number is. -/
theorem map_lastIndex?_eq_some_iff {entries : List ClassEntry} {test : ClassEntry → Bool} :
    (lastIndex? entries test).map ClassId.mk = some id ↔
      lastIndex? entries test = some id.index := by
  constructor
  · intro h
    obtain ⟨i, hi, rfl⟩ := Option.map_eq_some_iff.1 h
    exact hi
  · intro h
    rw [h]
    rfl

/-! ## What names lead to -/

/-- The class is the last one at its path in its file. -/
def Shows (b : Codebase) (id : ClassId) : Prop :=
  ∃ c, b.class? id = some c ∧ b.classAtPath? c.file c.definition.name = some id

/-- Whatever entity it is, if it is a class then the last one at its path in its file. -/
def Shown (b : Codebase) (e : Entity) : Prop :=
  ∀ id, e = .classDef id → b.Shows id

/-- The class at a path in a file has this path there. -/
theorem exists_of_classAtPath? (h : b.classAtPath? file path = some id) :
    ∃ c, b.class? id = some c ∧ c.file = file ∧ c.definition.name = path := by
  obtain ⟨⟨c, hc, hplace⟩, -⟩ := lastIndex?_eq_some_iff.1 (map_lastIndex?_eq_some_iff.1 h)
  simp only [Bool.and_eq_true, decide_eq_true_eq] at hplace
  exact ⟨c, hc, hplace.1, hplace.2⟩

/-- The class at a path is the last one there. -/
theorem shows_of_classAtPath? (h : b.classAtPath? file path = some id) : b.Shows id := by
  obtain ⟨c, hc, hfile, hpath⟩ := exists_of_classAtPath? h
  refine ⟨c, hc, ?_⟩
  rw [hfile, hpath]
  exact h

/-- A name declared as a class is the path of the class. -/
theorem classAtPath?_of_declared? (h : b.declared? file name = some (.classDef id)) :
    b.classAtPath? file name = some id := by
  rw [declared?, Option.orElse_eq_some, Option.orElse_eq_some, Option.orElse_eq_some] at h
  rcases h with hclass | ⟨-, hfunction | ⟨-, hassignment | ⟨-, himport⟩⟩⟩
  · split at hclass
    · cases hclass
    · obtain ⟨id', hid', hsame⟩ := Option.map_eq_some_iff.1 hclass
      rw [← Declared.classDef.inj hsame]
      exact hid'
  · obtain ⟨i, -, hsame⟩ := Option.map_eq_some_iff.1 hfunction
    cases hsame
  · obtain ⟨i, -, hsame⟩ := Option.map_eq_some_iff.1 hassignment
    cases hsame
  · obtain ⟨m, -, hm⟩ := Option.bind_eq_some_iff.1 himport
    obtain ⟨i, -, hsame⟩ := Option.map_eq_some_iff.1 hm
    cases hsame

/-- So a declared class is the last one at its path. -/
theorem shows_of_declared? (h : b.declared? file name = some (.classDef id)) : b.Shows id :=
  shows_of_classAtPath? (classAtPath?_of_declared? h)

section Look

variable {look : FileId → String → Option Entity}
  (hlook : ∀ file name e, look file name = some e → b.Shown e)

include hlook

/-- A member of a module that is a class is the last one at its path. -/
theorem shown_of_memberOfModule {module : String} {e : Entity}
    (h : b.memberOfModule look module name = some e) : b.Shown e := by
  rw [memberOfModule] at h
  rintro id rfl
  split at h
  · next file _ =>
      cases hfound : look file name with
      | none =>
          rw [hfound] at h
          split at h <;> cases h
      | some e =>
          rw [hfound] at h
          exact hlook file name e hfound id (Option.some.inj h)
  · split at h <;> cases h

theorem shown_of_importedEntity {m : SourceModule} {i : Import} {e : Entity}
    (h : b.importedEntity look m i = some e) : b.Shown e := by
  rw [importedEntity] at h
  split at h
  · cases h
  · rintro id rfl
    cases h
  · exact shown_of_memberOfModule hlook h

end Look

theorem shown_of_entityIn (levels : Nat) (file : FileId) (name : String) (e : Entity)
    (h : b.entityIn levels file name = some e) : b.Shown e := by
  induction levels generalizing file name e with
  | zero => cases h
  | succ levels ih =>
      rw [entityIn] at h
      rintro id rfl
      split at h
      · cases h
      · next hdeclared =>
          rw [← Entity.classDef.inj (Option.some.inj h)]
          exact shows_of_declared? hdeclared
      · cases h
      · cases h
      · obtain ⟨m, _, hm⟩ := Option.bind_eq_some_iff.1 h
        exact shown_of_importedEntity ih hm id rfl

theorem shown_of_member {e e' : Entity} (h : b.member e name = some e') : b.Shown e' := by
  cases e with
  | module module => exact shown_of_memberOfModule (b.shown_of_entityIn _) h
  | external outer =>
      rintro id rfl
      exact nomatch h
  | classDef outer =>
      obtain ⟨c, _, hc⟩ := Option.bind_eq_some_iff.1 h
      obtain ⟨id, hid, rfl⟩ := Option.map_eq_some_iff.1 hc
      rintro id' hsame
      rw [← Entity.classDef.inj hsame]
      exact shows_of_classAtPath? hid
  | function => exact nomatch h
  | assignment => exact nomatch h
  | builtin => exact nomatch h

/-- Going down from what is shown leads to what is shown. -/
theorem shown_of_members {e e' : Entity} {names : List String} (he : b.Shown e)
    (h : b.members e names = some e') : b.Shown e' := by
  induction names generalizing e with
  | nil => exact Option.some.inj h ▸ he
  | cons name names ih =>
      obtain ⟨next, hnext, hrest⟩ := Option.bind_eq_some_iff.1 h
      exact ih (shown_of_member hnext) hrest

/-- A class that a dotted name means in a file is the last one at its path in its own file. -/
theorem shows_of_resolve (h : b.resolve file name = some (.classDef id)) : b.Shows id := by
  rw [resolve] at h
  split at h
  · cases h
  · next first rest _ =>
      split at h
      · cases h
      · split at h
        · cases h
        · next e hfirst =>
            refine shown_of_members ?_ h id rfl
            rcases (Option.orElse_eq_some _ _ _).1 hfirst with hfound | ⟨-, hbuiltin⟩
            · exact shown_of_entityIn _ _ _ e hfound
            · rintro id rfl
              rw [builtinEntity] at hbuiltin
              split at hbuiltin <;> cases hbuiltin

/-! ## Symbols and qualified names -/

/-- Classes have one symbol exactly if they have one qualified name. -/
def SymbolsByName (b : Codebase) : Prop :=
  ∀ c ∈ b.classes, ∀ c' ∈ b.classes, c.symbol = c'.symbol ↔ c.qualifiedName = c'.qualifiedName

/-- The symbol of every class is the one that its qualified name has in the table of symbols. -/
def Interned (b : Codebase) : Prop :=
  ∀ c ∈ b.classes, b.symbols.find? c.qualifiedName = some c.symbol

/-- A table of symbols tells them apart by their qualified names. -/
theorem Interned.symbolsByName (h : b.Interned) : b.SymbolsByName := by
  intro c hc c' hc'
  constructor
  · intro hsymbol
    exact SymbolTable.eq_of_find? (h c hc) (hsymbol ▸ h c' hc')
  · intro hname
    exact Option.some.inj ((h c hc).symm.trans (hname ▸ h c' hc'))

/-- A class that is added brings its symbol. -/
theorem Interned.addClass (h : b.Interned) (file : FileId) (module : String) (d : ClassDef) :
    (addClass file module b d).Interned := by
  intro c hc
  rcases List.mem_append.1 hc with hold | hnew
  · exact SymbolTable.find?_intern_of_find? (h c hold) _ _ _
  · rw [List.mem_singleton.1 hnew]
    exact SymbolTable.find?_intern_self _ _ _ _

/-- In a codebase of modules every class has the symbol of its qualified name. -/
theorem interned_ofModules (config : Config) (modules : List SourceModule)
    (read : Source.TreeReader) :
    (ofModules config modules read).Interned := by
  refine List.foldlRecOn (motive := Interned) modules add ?_ fun b hb m _ => ?_
  · exact fun c hc => absurd hc List.not_mem_nil
  · exact List.foldlRecOn (motive := Interned) m.definitions.classes _ hb
      fun b hb d _ => hb.addClass _ _ d

/-! ## The class that a symbol stands for -/

/-- No class of another file that is listed behind this one has its qualified name. -/
def LastOfName (b : Codebase) (id : ClassId) (c : ClassEntry) : Prop :=
  ∀ id' c', b.class? id' = some c' → c'.qualifiedName = c.qualifiedName → c'.file ≠ c.file →
    id'.index < id.index

/-- The symbol of the last class at its path in its file stands for this class exactly if no class
of another file behind it has its qualified name. -/
theorem classOfSymbol?_eq_some_iff (hrecorded : b.Recorded) (hsymbols : b.SymbolsByName)
    (hc : b.class? id = some c) (hshows : b.Shows id) :
    b.classOfSymbol? c.symbol = some id ↔ b.LastOfName id c := by
  have hmem : c ∈ b.classes := List.mem_of_getElem? hc
  rw [classOfSymbol?, map_lastIndex?_eq_some_iff, lastIndex?_eq_some_iff]
  constructor
  · rintro ⟨-, hlast⟩ id' c' hc' hname hfile
    have hsymbol := (hsymbols c' (List.mem_of_getElem? hc') c hmem).2 hname
    refine lt_of_le_of_ne (hlast id'.index c' hc' (decide_eq_true hsymbol)) fun hindex => hfile ?_
    rw [class?, hindex] at hc'
    rw [Option.some.inj (hc'.symm.trans hc)]
  · intro hlast
    refine ⟨⟨c, hc, decide_eq_true rfl⟩, fun j c' hj hsymbol => ?_⟩
    have hname := (hsymbols c' (List.mem_of_getElem? hj) c hmem).1 (of_decide_eq_true hsymbol)
    by_cases hfile : c'.file = c.file
    · -- in its own file the class is the last one of its path
      obtain ⟨c'', hc'', hpath⟩ := hshows
      obtain rfl := Option.some.inj (hc.symm.trans hc'')
      obtain ⟨m, hm⟩ := hrecorded.classes.has_file c hmem
      have hqualified := hrecorded.qualifiedName_eq c hmem m hm
      have hqualified' := hrecorded.qualifiedName_eq c' (List.mem_of_getElem? hj) m (hfile ▸ hm)
      have hdefinition : c'.definition.name = c.definition.name := by
        refine Dotted.qualify_injective m.name ?_
        rw [← hqualified, ← hqualified', hname]
      refine (lastIndex?_eq_some_iff.1 (map_lastIndex?_eq_some_iff.1 hpath)).2 j c' hj ?_
      simp only [hfile, hdefinition, decide_true, Bool.and_self]
    · exact Nat.le_of_lt (hlast ⟨j⟩ c' hj hname hfile)

end Codebase

/-! ## The types of classes -/

/-- The name that an expression is, or that it subscripts. -/
def TypeExpr.named? : TypeExpr → Option String
  | .name n => some n
  | .subscript base _ => some base
  | _ => Option.none

/-- The type that entering a node gives has this node. -/
theorem ensures_enter (node : TypeNode) :
    Ensures (fun _ => True) (fun t type => t.types.node type = node) (Tables.enter node) :=
  fun t ht => ⟨Tables.within_enter node t, ht, TypeTable.node_intern t.types node⟩

namespace Codebase

variable {b : Codebase} {file : FileId} {name text : String} {id : ClassId} {c : ClassEntry}

/-- A name that means a class has the type of the symbol of the class. -/
theorem ensures_namedType (hname : b.resolve file name = some (.classDef id))
    (hc : b.class? id = some c) (inner : FileId → TypeExpr → StateM Tables TypeId)
    (args : List TypeExpr) :
    Ensures (fun _ => True) (fun t type => t.types.node type = .projectClass c.symbol)
      (b.namedType inner file name args) := by
  have htype : b.namedType inner file name args = Tables.enter (.projectClass c.symbol) := by
    simp only [namedType, hname, formName?, Option.bind_none, hc, Option.elim_some]
  rw [htype]
  exact ensures_enter _

/-- An annotation that names a class, or subscripts it, has the type of its symbol. -/
theorem ensures_typeOf (htext : (b.annotation text).named? = some name)
    (hname : b.resolve file name = some (.classDef id)) (hc : b.class? id = some c) :
    Ensures (fun _ => True) (fun t type => t.types.node type = .projectClass c.symbol)
      (b.typeOf file text) := by
  rw [typeOf]
  cases hparsed : b.annotation text with
  | name n =>
      rw [hparsed] at htext
      obtain rfl := Option.some.inj htext
      exact ensures_namedType hname hc _ []
  | subscript base args =>
      rw [hparsed] at htext
      obtain rfl := Option.some.inj htext
      exact ensures_namedType hname hc _ args
  | _ =>
      rw [hparsed] at htext
      exact nomatch htext

/-! ## Other symbols and scopes -/

section OtherSymbolsAndScopes

variable (b : Codebase) (symbols : SymbolTable) (scopes : List ScopeRecord)

/-- What names mean in a file depends on neither symbols nor scopes. -/
theorem entityIn_with (levels : Nat) :
    entityIn { b with symbols := symbols, scopes := scopes } levels = b.entityIn levels := by
  induction levels with
  | zero => rfl
  | succ levels ih =>
      funext file name
      rw [entityIn, entityIn, ih]
      rfl

theorem members_with :
    members { b with symbols := symbols, scopes := scopes } = b.members := by
  have hmember : member { b with symbols := symbols, scopes := scopes } = b.member := by
    funext e name
    cases e with
    | module module =>
        rw [member, member, entityIn_with]
        rfl
    | _ => rfl
  funext e names
  rw [members, members, hmember]

/-- What a name means in a file depends neither on the symbols of classes nor on scopes. -/
theorem resolve_with (file : FileId) (name : String) :
    resolve { b with symbols := symbols, scopes := scopes } file name = b.resolve file name := by
  rw [resolve, resolve, entityIn_with, members_with]
  rfl

end OtherSymbolsAndScopes

end Codebase

namespace Project

open Codebase

variable {b : Codebase} {config : Config} {modules : List SourceModule}
  {read : Source.TreeReader} {file : FileId}
  {name text : String} {id : ClassId}

/-! ## Projects -/

/-- Typing a codebase changes nothing of what names mean. -/
theorem resolve_ofCodebase (b : Codebase) (file : FileId) (name : String) :
    (ofCodebase b).resolve file name = b.resolve file name :=
  resolve_with b _ b.scopes file name

/-- In a project of any modules, the symbol of a class that a dotted name means in a file stands for
this class exactly if no class of another file behind it has its qualified name. -/
theorem classOfSymbol?_of_resolve
    (h : (ofCodebase (ofModules config modules read)).resolve file name = some (.classDef id)) :
    ∃ c, (ofCodebase (ofModules config modules read)).class? id = some c ∧
      ((ofCodebase (ofModules config modules read)).classOfSymbol? c.symbol = some id ↔
        (ofCodebase (ofModules config modules read)).LastOfName id c) := by
  obtain ⟨c, hc, -⟩ := shows_of_resolve h
  have hrecorded := recorded_ofCodebase (recorded_ofModules config modules read)
  have hsymbols : (ofCodebase (ofModules config modules read)).SymbolsByName :=
    (interned_ofModules config modules read).symbolsByName
  exact ⟨c, hc, classOfSymbol?_eq_some_iff hrecorded hsymbols hc (shows_of_resolve h)⟩

/-- The annotation was given the type when the codebase was typed. -/
def Annotates (b : Codebase) (file : FileId) (text : String) (type : TypeId) : Prop :=
  ∃ tables, (b.typeOf file text tables).1 = type ∧
    (b.typeOf file text tables).2.types.nodes <+: (ofCodebase b).types.nodes

/-- What is asked of the type of an annotation that names a class is answered from this class, as
long as its symbol stands for it. -/
theorem shape_of_annotation {type : TypeId} {c : ClassEntry} (htype : Annotates b file text type)
    (htext : (b.annotation text).named? = some name)
    (hname : (ofCodebase b).resolve file name = some (.classDef id))
    (hc : (ofCodebase b).class? id = some c)
    (hsymbol : (ofCodebase b).classOfSymbol? c.symbol = some id) :
    (ofCodebase b).classOf? type = some id ∧
      (ofCodebase b).shape type =
        if ((ofCodebase b).recordOrigin id).isSome then
          .record c.symbol ((ofCodebase b).recordFields id)
        else if (ofCodebase b).derivesFromBuiltin id then
          .builtin (some c.symbol) ((ofCodebase b).symbolName c.symbol)
        else .plain c.symbol := by
  obtain ⟨tables, rfl, hgrows⟩ := htype
  rw [resolve_ofCodebase] at hname
  have hnode : (ofCodebase b).types.node (b.typeOf file text tables).1 = .projectClass c.symbol :=
    TypeTable.node_eq_of_prefix hgrows (ensures_typeOf htext hname hc tables trivial).2.2
      TypeNode.noConfusion
  constructor
  · rw [classOf?, hnode]
    exact hsymbol
  · rw [shape, hnode]
    show (ofCodebase b).classShape c.symbol = _
    rw [classShape, hsymbol]

/-! ## Two files of one module name -/

/-- A file and a package of one module name, each with a class of its own. -/
def twoModules : List (String × String) :=
  [("pkg.py", "class Item:\n    name: str\n"), ("pkg/__init__.py", "class Item: pass\n")]

/-- The first file is the module, and there its class is what the name means; the symbol of this
class stands for the class of the second file. -/
theorem classOfSymbol?_of_second_file :
    (ofSources .default twoModules).moduleFile? "pkg" = some ⟨0⟩ ∧
    (ofSources .default twoModules).resolve ⟨0⟩ "Item" = some (.classDef ⟨0⟩) ∧
    ((ofSources .default twoModules).class? ⟨0⟩).bind (fun c =>
      (ofSources .default twoModules).classOfSymbol? c.symbol) = some ⟨1⟩ := by
  decide +kernel

end Project

end CallFill
