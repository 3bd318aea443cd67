import CallFill.Symbol
import CallFill.Text.Dotted
import CallFill.TypeShape

/-!
# Tables of symbols and types

A table holds each of its entries once, and the handle of an entry is its position. Entering what is
there already gives the handle it has; a new entry goes to the end, so no handle ever changes its
meaning. Symbols are told apart by their qualified names, types by their nodes.
-/

namespace CallFill

/-- What a type is built from. -/
inductive TypeNode where
  | unknown
  | noneType
  | anyLike (name : String)
  /-- A literal type by its whole text. -/
  | literal (text : String)
  | builtin (symbol : SymbolId)
  /-- A class of the codebase. -/
  | projectClass (symbol : SymbolId)
  /-- A named wrapper around another type. -/
  | typeAlias (symbol : SymbolId)
  /-- A class from elsewhere, known by name only. -/
  | external (symbol : SymbolId)
  | union (members : List TypeId)
  | collection (kind : CollectionKind) (name : String) (elements : List TypeId)
  deriving DecidableEq, Repr

/-- The symbols of a codebase. -/
structure SymbolTable where
  symbols : List Symbol := []

namespace SymbolTable

/-- The symbol of a handle. -/
def get? (t : SymbolTable) (id : SymbolId) : Option Symbol :=
  t.symbols[id.index]?

/-- The handle of the symbol with a qualified name. -/
def find? (t : SymbolTable) (qualifiedName : String) : Option SymbolId :=
  (t.symbols.findIdx? fun s => s.qualifiedName = qualifiedName).map SymbolId.mk

/-- The handle of the symbol with a qualified name, which is entered if it is new. -/
def intern (t : SymbolTable) (qualifiedName module : String) (kind : SymbolKind) :
    SymbolId × SymbolTable :=
  match t.find? qualifiedName with
  | some id => (id, t)
  | none =>
    (⟨t.symbols.length⟩,
      { symbols := t.symbols ++
          [{ name := Dotted.last qualifiedName, qualifiedName, module, kind }] })

variable {t : SymbolTable} {name other : String} {id : SymbolId}

/-- A handle that is found has the symbol of the name. -/
theorem exists_of_find? (h : t.find? name = some id) :
    ∃ s, t.get? id = some s ∧ s.qualifiedName = name := by
  rw [find?] at h
  obtain ⟨i, hi, rfl⟩ := Option.map_eq_some_iff.1 h
  obtain ⟨hlt, hname, -⟩ := List.findIdx?_eq_some_iff_getElem.1 hi
  exact ⟨t.symbols[i], List.getElem?_eq_getElem hlt, of_decide_eq_true hname⟩

/-- A symbol has one qualified name. -/
theorem eq_of_find? (h : t.find? name = some id) (h' : t.find? other = some id) : name = other := by
  obtain ⟨s, hs, hname⟩ := exists_of_find? h
  obtain ⟨s', hs', hother⟩ := exists_of_find? h'
  rw [← hname, ← hother, Option.some.inj (hs.symm.trans hs')]

/-- Entering a name moves no symbol. -/
theorem find?_intern_of_find? (h : t.find? name = some id) (other module : String)
    (kind : SymbolKind) : (t.intern other module kind).2.find? name = some id := by
  rw [intern]
  split
  · exact h
  · obtain ⟨i, hi, rfl⟩ := Option.map_eq_some_iff.1 h
    rw [find?, List.findIdx?_append, hi]
    rfl

/-- An interned symbol is found under its name. -/
theorem find?_intern_self (t : SymbolTable) (name module : String) (kind : SymbolKind) :
    (t.intern name module kind).2.find? name = some (t.intern name module kind).1 := by
  rw [intern]
  split
  · next h => exact h
  · next h =>
      have hnew : t.symbols.findIdx? (fun s => s.qualifiedName = name) = none :=
        Option.map_eq_none_iff.1 h
      rw [find?, List.findIdx?_append, hnew]
      simp [List.findIdx?_cons]

/-- Interning only adds to the symbols. -/
theorem prefix_intern (t : SymbolTable) (name module : String) (kind : SymbolKind) :
    t.symbols <+: (t.intern name module kind).2.symbols := by
  rw [intern]
  split
  · exact List.prefix_refl _
  · exact List.prefix_append _ _

/-- A table with more symbols behind them gives all symbols the handles they have. -/
theorem find?_of_extends {t' : SymbolTable} (h : t.find? name = some id)
    (hmore : t.symbols <+: t'.symbols) : t'.find? name = some id := by
  obtain ⟨more, hmore⟩ := hmore
  obtain ⟨i, hi, rfl⟩ := Option.map_eq_some_iff.1 h
  rw [find?, ← hmore, List.findIdx?_append, hi]
  rfl

/-- What is entered already is found again, and nothing is added. -/
theorem intern_of_extends {t' : SymbolTable} {module : String} {kind : SymbolKind}
    (hmore : (t.intern name module kind).2.symbols <+: t'.symbols) :
    t'.intern name module kind = ((t.intern name module kind).1, t') := by
  have hfound := find?_of_extends (find?_intern_self t name module kind) hmore
  rw [intern, hfound]

end SymbolTable

/-- The types of a codebase. -/
structure TypeTable where
  nodes : List TypeNode := []

namespace TypeTable

/-- The node of a type; handles outside the table mean nothing known. -/
def node (t : TypeTable) (id : TypeId) : TypeNode :=
  (t.nodes[id.index]?).getD .unknown

/-- The handle of a node, if it is in the table. -/
def find? (t : TypeTable) (node : TypeNode) : Option TypeId :=
  (t.nodes.findIdx? (· = node)).map TypeId.mk

/-- The handle of a node, which is entered if it is new. -/
def intern (t : TypeTable) (node : TypeNode) : TypeId × TypeTable :=
  match t.find? node with
  | some id => (id, t)
  | none => (⟨t.nodes.length⟩, { nodes := t.nodes ++ [node] })

/-- The handle of an interned type stands for it. -/
theorem node_intern (t : TypeTable) (node : TypeNode) :
    (t.intern node).2.node (t.intern node).1 = node := by
  rw [intern]
  split
  · next id h =>
      obtain ⟨i, hi, rfl⟩ := Option.map_eq_some_iff.1 h
      obtain ⟨hlt, hnode, -⟩ := List.findIdx?_eq_some_iff_getElem.1 hi
      rw [TypeTable.node, List.getElem?_eq_getElem hlt, Option.getD_some]
      exact of_decide_eq_true hnode
  · rw [TypeTable.node, List.getElem?_concat_length, Option.getD_some]

variable {t t' : TypeTable} {node : TypeNode} {id : TypeId}

/-- A handle that is found was given out. -/
theorem index_lt_of_find? (h : t.find? node = some id) : id.index < t.nodes.length := by
  obtain ⟨i, hi, rfl⟩ := Option.map_eq_some_iff.1 h
  exact (List.findIdx?_eq_some_iff_getElem.1 hi).1

/-- Interning only adds to the types. -/
theorem prefix_intern (t : TypeTable) (node : TypeNode) :
    t.nodes <+: (t.intern node).2.nodes := by
  rw [intern]
  split
  · exact List.prefix_refl _
  · exact List.prefix_append _ _

theorem find?_of_extends (h : t.find? node = some id) (hmore : t.nodes <+: t'.nodes) :
    t'.find? node = some id := by
  obtain ⟨more, hmore⟩ := hmore
  obtain ⟨i, hi, rfl⟩ := Option.map_eq_some_iff.1 h
  rw [find?, ← hmore, List.findIdx?_append, hi]
  rfl

theorem find?_intern_self (t : TypeTable) (node : TypeNode) :
    (t.intern node).2.find? node = some (t.intern node).1 := by
  rw [intern]
  split
  · next h => exact h
  · next h =>
      have hnew : t.nodes.findIdx? (· = node) = none := Option.map_eq_none_iff.1 h
      rw [find?, List.findIdx?_append, hnew]
      simp [List.findIdx?_cons]

/-- The handle of an interned type is one of the table. -/
theorem index_intern_lt (t : TypeTable) (node : TypeNode) :
    (t.intern node).1.index < (t.intern node).2.nodes.length :=
  index_lt_of_find? (find?_intern_self t node)

/-- What is entered already is found again, and nothing is added. -/
theorem intern_of_extends (hmore : (t.intern node).2.nodes <+: t'.nodes) :
    t'.intern node = ((t.intern node).1, t') := by
  have hfound := find?_of_extends (find?_intern_self t node) hmore
  rw [intern, hfound]

/-- Types entered later leave the nodes of the table as they are. -/
theorem node_of_extends (hmore : t.nodes <+: t'.nodes) (hid : id.index < t.nodes.length) :
    t'.node id = t.node id := by
  obtain ⟨more, hmore⟩ := hmore
  rw [TypeTable.node, TypeTable.node, ← hmore, List.getElem?_append_left hid]

/-- A handle that was not given out stands for the unknown type. -/
theorem node_of_length_le (hid : t.nodes.length ≤ id.index) : t.node id = .unknown := by
  rw [TypeTable.node, List.getElem?_eq_none hid]
  rfl

/-- A type of the table with one node more is one of the table, or has the new node. -/
theorem cases_intern (hid : id.index < (t.intern node).2.nodes.length) :
    id.index < t.nodes.length ∨ (t.intern node).2.node id = node := by
  rw [intern] at hid ⊢
  split at hid
  · exact .inl hid
  · rw [List.length_append, List.length_singleton] at hid
    rcases Nat.lt_succ_iff_lt_or_eq.1 hid with hlt | heq
    · exact .inl hlt
    · right
      rw [TypeTable.node, heq, List.getElem?_concat_length, Option.getD_some]

end TypeTable

end CallFill
