import CallFill.Proofs.Codebase.SymbolClasses

/-!
# Tables without repetitions

A table gives one handle to each of its entries, and a type is entered after the types it is built
from. Entering keeps both (`TypeTable.HashConsed.intern`, `SymbolTable.Distinct.intern`), and so
does the typing of every annotation, whatever aliases, quotes and forms it goes through. So the
tables of a project have no repetitions, and the handles of the parts of a type are below its own
(`Project.hashConsed_ofModules`). Naming a type by the names of its parts therefore comes to an end,
and the bound on how deep parts nest is never felt (`Project.displayName_eq`).
-/

namespace CallFill

/-! ## Symbols -/

namespace SymbolTable

variable {t : SymbolTable} {id id' : SymbolId} {s s' : Symbol}

/-- No two symbols have one qualified name. -/
def Distinct (t : SymbolTable) : Prop :=
  (t.symbols.map Symbol.qualifiedName).Nodup

theorem Distinct.intern (h : t.Distinct) (name module : String) (kind : SymbolKind) :
    (t.intern name module kind).2.Distinct := by
  rw [SymbolTable.intern]
  split
  · exact h
  · next hnew =>
      rw [find?, Option.map_eq_none_iff, List.findIdx?_eq_none_iff] at hnew
      have hfresh : name ∉ t.symbols.map Symbol.qualifiedName := by
        intro hname
        obtain ⟨s, hs, rfl⟩ := List.mem_map.1 hname
        exact absurd (hnew s hs) (by simp)
      rw [Distinct, List.map_append]
      refine List.nodup_append.2 ⟨h, List.nodup_singleton _, ?_⟩
      rintro a ha b hb rfl
      rw [List.mem_singleton.1 hb] at ha
      exact hfresh ha

/-- Symbols are told apart by their qualified names. -/
theorem Distinct.eq_iff (h : t.Distinct) (hs : t.get? id = some s) (hs' : t.get? id' = some s') :
    id = id' ↔ s.qualifiedName = s'.qualifiedName := by
  have hname : (t.symbols.map Symbol.qualifiedName)[id.index]? = some s.qualifiedName := by
    rw [List.getElem?_map, show t.symbols[id.index]? = some s from hs]
    rfl
  have hname' : (t.symbols.map Symbol.qualifiedName)[id'.index]? = some s'.qualifiedName := by
    rw [List.getElem?_map, show t.symbols[id'.index]? = some s' from hs']
    rfl
  constructor
  · rintro rfl
    exact Option.some.inj (hname.symm.trans hname')
  · intro hsame
    obtain ⟨hlt, -⟩ := List.getElem?_eq_some_iff.1 hname
    have hindex : id.index = id'.index :=
      (List.getElem?_inj hlt h).1 (by rw [hname, hname', hsame])
    cases id
    cases id'
    exact congrArg SymbolId.mk hindex

/-- A symbol is found by its qualified name. -/
theorem Distinct.find?_eq (h : t.Distinct) (hs : t.get? id = some s) :
    t.find? s.qualifiedName = some id := by
  cases hfound : t.find? s.qualifiedName with
  | none =>
      rw [find?, Option.map_eq_none_iff, List.findIdx?_eq_none_iff] at hfound
      exact absurd (hfound s (List.mem_of_getElem? hs)) (by simp)
  | some id' =>
      obtain ⟨s', hs', hname⟩ := exists_of_find? hfound
      rw [(h.eq_iff hs' hs).2 hname]

end SymbolTable

/-! ## Types -/

namespace TypeTable

variable {t : TypeTable} {id id' : TypeId} {node : TypeNode}

/-- No two types have one node, and the parts of a type have handles below its own. -/
structure HashConsed (t : TypeTable) : Prop where
  nodup : t.nodes.Nodup
  parts_lt : ∀ (id : TypeId), ∀ part ∈ (t.node id).parts, part.index < id.index

/-- Entering a node whose parts are in the table keeps it without repetitions. -/
theorem HashConsed.intern (h : t.HashConsed)
    (hparts : ∀ part ∈ node.parts, part.index < t.nodes.length) :
    (t.intern node).2.HashConsed := by
  rw [TypeTable.intern]
  split
  · exact h
  · next hnew =>
      rw [find?, Option.map_eq_none_iff, List.findIdx?_eq_none_iff] at hnew
      have hfresh : node ∉ t.nodes := fun hnode => absurd (hnew node hnode) (by simp)
      refine ⟨List.nodup_append.2 ⟨h.nodup, List.nodup_singleton _, ?_⟩, fun id part hpart => ?_⟩
      · rintro a ha b hb rfl
        rw [List.mem_singleton.1 hb] at ha
        exact hfresh ha
      · -- the new type is the only one whose node was not in the table
        rw [TypeTable.node] at hpart
        rcases Nat.lt_trichotomy id.index t.nodes.length with hlt | heq | hgt
        · rw [List.getElem?_append_left hlt] at hpart
          exact h.parts_lt id part hpart
        · rw [heq, List.getElem?_concat_length] at hpart
          rw [heq]
          exact hparts part hpart
        · rw [List.getElem?_eq_none (by rw [List.length_append]; exact hgt)] at hpart
          exact absurd hpart List.not_mem_nil

/-- Types are told apart by their nodes. -/
theorem HashConsed.eq_iff (h : t.HashConsed) (hid : id.index < t.nodes.length)
    (hid' : id'.index < t.nodes.length) : id = id' ↔ t.node id = t.node id' := by
  constructor
  · exact congrArg t.node
  · intro hsame
    rw [TypeTable.node, TypeTable.node, List.getElem?_eq_getElem hid,
      List.getElem?_eq_getElem hid', Option.getD_some, Option.getD_some] at hsame
    have hindex : id.index = id'.index := (List.Nodup.getElem_inj_iff h.nodup).1 hsame
    cases id
    cases id'
    exact congrArg TypeId.mk hindex

/-- Entering a node leaves the nodes of all types as they are. -/
theorem node_intern_of_lt (t : TypeTable) (node : TypeNode) (hid : id.index < t.nodes.length) :
    (t.intern node).2.node id = t.node id :=
  node_of_extends (prefix_intern t node) hid

end TypeTable

/-! ## Typing -/

namespace Codebase

/-- The tables have no repetitions. -/
structure TidyTables (t : Tables) : Prop where
  symbols : t.symbols.Distinct
  types : t.types.HashConsed

/-- The step keeps the tables without repetitions, and the type it gives is in them. -/
abbrev EnsuresTidy (step : StateM Tables TypeId) : Prop :=
  Ensures TidyTables (fun t id => id.index < t.types.nodes.length) step

variable {node : TypeNode} {t : Tables}

theorem tidy_enter (ht : TidyTables t)
    (hparts : ∀ part ∈ node.parts, part.index < t.types.nodes.length) :
    TidyTables (Tables.enter node t).2 ∧
      (Tables.enter node t).1.index < (Tables.enter node t).2.types.nodes.length :=
  ⟨⟨ht.symbols, ht.types.intern hparts⟩, t.types.index_intern_lt node⟩

theorem ensuresTidy_enter (hparts : node.parts = []) : EnsuresTidy (Tables.enter node) :=
  fun t ht => ⟨Tables.within_enter node t, tidy_enter ht (by simp [hparts])⟩

/-- Typing an expression keeps the tables without repetitions. -/
theorem ensuresTidy_typeWithin (b : Codebase) (n : Nat) (file : FileId) (e : TypeExpr) :
    EnsuresTidy (b.typeWithin n file e) := by
  induction n generalizing file e with
  | zero => exact ensuresTidy_enter rfl
  | succ n ih =>
      rw [typeWithin_succ]
      refine ensures_run ?_ (fun _ _ h => h) ?_ (ensuresTidy_enter rfl) ?_ ih _
      · exact fun id s t hwithin h => Nat.lt_of_lt_of_le h hwithin.types.length_le
      · exact fun node t ht hparts => tidy_enter ht hparts
      · intro name module kind node hparts t ht
        have hsymbols := ht.symbols.intern name module kind
        exact ⟨Tables.within_enterSymbol name module kind node t,
          tidy_enter ⟨hsymbols, ht.types⟩ (by simp [hparts])⟩

/-- The symbols of the classes of some modules have no repetitions. -/
theorem distinct_ofModules (config : Config) (modules : List SourceModule)
    (read : Source.TreeReader) :
    (ofModules config modules read).symbols.Distinct := by
  refine List.foldlRecOn (motive := fun b : Codebase => b.symbols.Distinct) modules add ?_ ?_
  · exact List.nodup_nil
  · intro b hb m _
    exact List.foldlRecOn (motive := fun b : Codebase => b.symbols.Distinct)
      m.definitions.classes _ hb fun b hb d _ => hb.intern _ _ _

end Codebase

namespace Project

open Codebase

variable {p : Project} {t : TypeId}

/-! ## Names of types -/

/-- The name of a type by the names of its parts. -/
def nameFrom (p : Project) (name : TypeId → String) (t : TypeId) : String :=
  match p.types.node t with
  | .unknown => "?"
  | .noneType => "None"
  | .anyLike name | .literal name => name
  | .builtin symbol | .projectClass symbol | .typeAlias symbol | .external symbol =>
    (p.symbols.get? symbol).elim "?" Symbol.qualifiedName
  | .union members => " | ".intercalate (members.map name)
  | .collection _ collection [] => collection
  | .collection _ collection elements =>
    collection ++ "[" ++ ", ".intercalate (elements.map name) ++ "]"

theorem displayNameWithin_succ (p : Project) (n : Nat) (t : TypeId) :
    p.displayNameWithin (n + 1) t = p.nameFrom (p.displayNameWithin n) t := by
  rfl

/-- The name of a type depends on nothing but the names of its parts. -/
theorem nameFrom_congr {name name' : TypeId → String}
    (h : ∀ part ∈ (p.types.node t).parts, name part = name' part) :
    p.nameFrom name t = p.nameFrom name' t := by
  rw [nameFrom, nameFrom]
  cases hnode : p.types.node t with
  | union members =>
      rw [hnode] at h
      have hnames : members.map name = members.map name' := List.map_congr_left h
      dsimp only
      rw [hnames]
  | collection kind collection elements =>
      rw [hnode] at h
      cases elements with
      | nil => rfl
      | cons e es =>
          have hnames : (e :: es).map name = (e :: es).map name' := List.map_congr_left h
          dsimp only
          rw [hnames]
  | _ => rfl

/-- A bound above the handle of a type is never felt. -/
theorem displayNameWithin_eq (h : p.types.HashConsed) {n k : Nat} (hn : t.index < n)
    (hk : t.index < k) : p.displayNameWithin n t = p.displayNameWithin k t := by
  induction n generalizing t k with
  | zero => exact absurd hn (Nat.not_lt_zero _)
  | succ n ih =>
      obtain ⟨k, rfl⟩ : ∃ j, k = j + 1 := ⟨k - 1, by omega⟩
      rw [displayNameWithin_succ, displayNameWithin_succ]
      refine nameFrom_congr fun part hpart => ?_
      have hlt := h.parts_lt t part hpart
      exact ih (by omega) (by omega)

/-- A type is named by the names of its parts. -/
theorem displayName_eq (h : p.types.HashConsed) (t : TypeId) :
    p.displayName t = p.nameFrom p.displayName t := by
  rw [displayName, displayNameWithin_succ]
  refine nameFrom_congr fun part hpart => ?_
  exact displayNameWithin_eq h (h.parts_lt t part hpart) (Nat.lt_succ_self _)

/-! ## The tables of a project -/

/-- Typing keeps the tables of a project without repetitions. -/
theorem tidy_ofModules (config : Config) (modules : List SourceModule)
    (read : Source.TreeReader) :
    TidyTables (ofCodebase (Codebase.ofModules config modules read)).tables := by
  refine (forall_annotations (Q := fun _ _ _ _ => True) (fun _ _ _ _ _ _ h => h)
    (fun file text => ?_) ?_).1
  · exact (ensuresTidy_typeWithin _ _ file _).imp fun _ _ _ => trivial
  · refine ⟨distinct_ofModules config modules read, List.nodup_nil, fun id part hpart => ?_⟩
    rw [TypeTable.node_of_length_le (Nat.zero_le _)] at hpart
    exact absurd hpart List.not_mem_nil

/-- **The tables of a project have no repetitions.** Types are told apart by their nodes and symbols
by their qualified names, under which they are found. The parts of a type were entered before it, so
there is no way down through parts without an end, and every type is named by the names of its
parts. Entering a node leaves the nodes of all types as they are. -/
theorem hashConsed_ofModules (config : Config) (modules : List SourceModule)
    (read : Source.TreeReader) :
    let p := ofCodebase (Codebase.ofModules config modules read)
    (∀ id id' : TypeId, id.index < p.types.nodes.length → id'.index < p.types.nodes.length →
      (id = id' ↔ p.types.node id = p.types.node id')) ∧
    (∀ id : TypeId, ∀ part ∈ (p.types.node id).parts, part.index < id.index) ∧
    (WellFounded fun part id : TypeId => part ∈ (p.types.node id).parts) ∧
    (∀ id, p.displayName id = p.nameFrom p.displayName id) ∧
    (∀ (t : TypeTable) (node : TypeNode) (id : TypeId), id.index < t.nodes.length →
      (t.intern node).2.node id = t.node id) ∧
    (∀ id id' s s', p.symbols.get? id = some s → p.symbols.get? id' = some s' →
      (id = id' ↔ s.qualifiedName = s'.qualifiedName)) ∧
    ∀ id s, p.symbols.get? id = some s → p.symbols.find? s.qualifiedName = some id := by
  intro p
  obtain ⟨hsymbols, htypes⟩ : TidyTables p.tables := tidy_ofModules config modules read
  refine ⟨fun _ _ => htypes.eq_iff, htypes.parts_lt, ?_, displayName_eq htypes, ?_, ?_, ?_⟩
  · exact Subrelation.wf (fun {part id} hpart => htypes.parts_lt id part hpart)
      (InvImage.wf TypeId.index Nat.lt_wfRel.wf)
  · exact fun t node id hid => t.node_intern_of_lt node hid
  · exact fun _ _ _ _ => hsymbols.eq_iff
  · exact fun _ _ => hsymbols.find?_eq

end Project

end CallFill
