import CallFill.Handle

/-!
# Shapes of types

A type as far as writing a value for it is concerned: a record with fields, a union of members, a
collection of elements, or one of the forms without parts. Members, elements and fields refer to
other types by handle, so shapes may be cyclic.
-/

namespace CallFill

/-- The containers with a literal of their own, and all others. -/
inductive CollectionKind where
  | list
  | set
  | tuple
  | dict
  | other
  deriving DecidableEq, Repr

namespace CollectionKind

/-- The kind of a container by its builtin or `typing` spelling. -/
def ofName (name : String) : CollectionKind :=
  if name = "list" ∨ name = "List" then .list
  else if name = "set" ∨ name = "Set" then .set
  else if name = "tuple" ∨ name = "Tuple" then .tuple
  else if name = "dict" ∨ name = "Dict" then .dict
  else .other

/-- The name of a container kind in reports. -/
def name : CollectionKind → String
  | .list => "list"
  | .set => "set"
  | .tuple => "tuple"
  | .dict => "dict"
  | .other => "other"

end CollectionKind

/-- A field of a record, as its constructor takes it. -/
structure Field where
  /-- The keyword the constructor accepts for the field. -/
  name : String
  type : TypeId
  /-- The alias the field is annotated with. -/
  aliasSymbol : Option SymbolId := none
  defaultText : Option String := none
  isKeywordOnly : Bool := false
  deriving DecidableEq, Repr

/-- What a type consists of. -/
inductive TypeShape where
  /-- A structured value with its fields, inherited ones first. -/
  | record (symbol : SymbolId) (fields : List Field)
  | union (members : List TypeId)
  | collection (kind : CollectionKind) (elements : List TypeId)
  /-- A named wrapper around another type. -/
  | typeAlias (symbol : Option SymbolId) (name : String)
  /-- A builtin type, or a class derived from one. -/
  | builtin (symbol : Option SymbolId) (name : String)
  /-- A class that is no record. -/
  | plain (symbol : SymbolId)
  | literal
  | anyLike (name : String)
  | noneType
  | unknown
  deriving DecidableEq, Repr

namespace TypeShape

/-- The members of a union; no other shape has any. -/
def members? : TypeShape → Option (List TypeId)
  | .union members => some members
  | _ => none

/-- Whether the shape is a union. -/
def isUnion (s : TypeShape) : Bool :=
  s.members?.isSome

/-- Whether the shape is a record. -/
def isRecord : TypeShape → Bool
  | .record .. => true
  | _ => false

end TypeShape

end CallFill
