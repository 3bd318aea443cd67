import CallFill.Codebase.Resolution

/-!
# Base classes and records

A class is a record by a decorator, or by inheritance: from a record base, or through a base or
metaclass that transforms its subclasses. Only the second kind makes records of its own subclasses.
-/

namespace CallFill

/-- How a class became a record. -/
inductive RecordOrigin where
  | decorator
  /-- Subclasses are records too. -/
  | inherited
  deriving DecidableEq, Repr

/-- The name of a record origin in reports. -/
def RecordOrigin.name : RecordOrigin → String
  | .decorator => "decorator"
  | .inherited => "inherited"

namespace Codebase

variable (b : Codebase)

/-- A base as written, without the type arguments. -/
def baseName (written : String) : String :=
  Text.trimmed (String.ofList (written.toList.takeWhile (· != '[')))

/-- The bases of a class as written, without type arguments, and what they refer to. -/
def bases (id : ClassId) : List (String × Option Entity) :=
  match b.class? id with
  | none => []
  | some c => c.definition.bases.map fun base => (baseName base, b.resolve c.file (baseName base))

/-- The bases of a class that are classes of the codebase. -/
def baseClasses (id : ClassId) : List ClassId :=
  (b.bases id).filterMap fun base =>
    match base.2 with
    | some (.classDef c) => some c
    | _ => none

/-- Whether an entity is marked to make records of the classes it decorates, begets or creates. -/
def isTransform (e : Option Entity) : Bool :=
  match e with
  | some (.classDef id) =>
    (b.class? id).any fun c => hasDecorator c.definition.decorators "dataclass_transform"
  | some (.function id) =>
    (b.function? id).any fun f => hasDecorator f.definition.decorators "dataclass_transform"
  | _ => false

/-- Whether one of a class's decorators makes it a record. -/
def isDecoratedRecord (c : ClassEntry) : Bool :=
  c.definition.decorators.any fun d =>
    let e := b.resolve c.file d
    b.config.isRecordDecorator d (e.map b.qualifiedName) || b.isTransform e

/-- Whether a class's metaclass makes it a record. -/
def hasTransformMetaclass (c : ClassEntry) : Bool :=
  match c.definition.keyword? "metaclass" with
  | some metaclass => b.isTransform (b.resolve c.file metaclass)
  | none => false

/-- How a class became a record, looking at classes at most so many levels up. -/
def recordOriginWithin : Nat → ClassId → Option RecordOrigin
  | 0, _ => none
  | n + 1, id =>
    match b.class? id with
    | none => none
    | some c =>
      if b.isDecoratedRecord c then some .decorator
      else if (b.bases id).any fun base =>
          b.config.isRecordBase base.1 (base.2.map b.qualifiedName) || b.isTransform base.2 ||
          (match base.2 with
            | some (.classDef parent) => recordOriginWithin n parent = some .inherited
            | _ => false) then
        some .inherited
      else if b.hasTransformMetaclass c then some .inherited
      else none

/-- How a class became a record, if it is one. -/
def recordOrigin (id : ClassId) : Option RecordOrigin :=
  b.recordOriginWithin depthBound id

/-- Whether a builtin other than `object` is among the ancestors of a class, looking at most so many
levels up. -/
def derivesFromBuiltinWithin : Nat → ClassId → Bool
  | 0, _ => false
  | n + 1, id =>
    (b.bases id).any fun base =>
      match base.2 with
      | some (.builtin name) => name != "object"
      | some (.classDef parent) => derivesFromBuiltinWithin n parent
      | _ => false

/-- Whether a builtin other than `object` is among the ancestors of a class. -/
def derivesFromBuiltin (id : ClassId) : Bool :=
  b.derivesFromBuiltinWithin depthBound id

end Codebase

end CallFill
