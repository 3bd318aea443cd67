import CallFill.Codebase.Resolution

/-!
# Types of annotations

An annotation in a file becomes a type of the type table. Names are resolved first, so an alias
means what it is assigned and a class from another file is that class; the forms of `typing` count
where a name resolves to them or to nothing. Expressions nested beyond `Codebase.depthBound`, alias
expansions and quoted annotations included, have an unknown type.
-/

namespace CallFill

/-- The tables that typing fills. -/
structure Tables where
  symbols : SymbolTable
  types : TypeTable := {}

namespace Tables

/-- The type of a node. -/
def enter (node : TypeNode) : StateM Tables TypeId := fun t =>
  let (id, types) := t.types.intern node
  (id, { t with types })

/-- The type of a node around a symbol. -/
def enterSymbol (qualifiedName module : String) (kind : SymbolKind) (node : SymbolId → TypeNode) :
    StateM Tables TypeId := fun t =>
  let (symbol, symbols) := t.symbols.intern qualifiedName module kind
  enter (node symbol) { t with symbols }

end Tables

/-- The modules whose names are forms of types. -/
def typingModules : List String :=
  ["typing", "typing_extensions", "collections.abc", "collections"]

/-- Forms whose type is that of their first argument. -/
def transparentForms : List String :=
  ["Annotated", "ClassVar", "Final", "Required", "NotRequired", "ReadOnly", "InitVar"]

/-- Forms without a value of their own. -/
def anyForms : List String := ["Any", "Never", "NoReturn"]

/-- Forms that hold elements. -/
def collectionForms : List String := [
  "List", "Set", "FrozenSet", "Tuple", "Dict", "DefaultDict", "OrderedDict", "Deque", "Sequence",
  "MutableSequence", "Mapping", "MutableMapping", "Iterable", "Iterator", "Collection",
  "AbstractSet", "MutableSet", "Type", "Callable"]

/-- Whether an assigned name stands for the type on its right side: it is declared without a type or
as an alias. -/
def AssignmentDef.isAlias (a : AssignmentDef) : Bool :=
  a.typeText.all fun t => Dotted.last t = "TypeAlias"

namespace Codebase

variable (b : Codebase)

/-- The annotation in a text of its own, as the codebase reads it. -/
def annotation (text : String) : TypeExpr :=
  TypeExpr.parse text b.read

section Forms

/-! Below, `inner` gives the type of an expression one level further in. -/

variable (inner : FileId → TypeExpr → StateM Tables TypeId) (file : FileId)

/-- The union of the types of expressions; a single one is no union. -/
def unionType (items : List TypeExpr) : StateM Tables TypeId := do
  match ← items.mapM (inner file) with
  | [single] => return single
  | members => Tables.enter (.union members)

/-- A collection of elements; an ellipsis is no element. -/
def collectionType (name : String) (args : List TypeExpr) : StateM Tables TypeId := do
  let elements ← (args.filter fun a => !a.isEllipsis).mapM (inner file)
  Tables.enter (.collection (CollectionKind.ofName name) name elements)

/-- The type of a form of `typing`; none where the name is no form. -/
def formType? (form : String) (args : List TypeExpr) : Option (StateM Tables TypeId) :=
  if form = "Optional" then
    args.head?.map fun a => do
      let some' ← inner file a
      let none' ← Tables.enter .noneType
      Tables.enter (.union [some', none'])
  else if form = "Union" then some (unionType inner file args)
  else if transparentForms.contains form then
    some (args.head?.elim (Tables.enter .unknown) (inner file))
  else if form = "Literal" then
    let rendered := "Literal[" ++ ", ".intercalate (args.map TypeExpr.render) ++ "]"
    some (Tables.enter (.literal rendered))
  else if anyForms.contains form then some (Tables.enter (.anyLike form))
  else if collectionForms.contains form then some (collectionType inner file form args)
  else none

/-- The type of a builtin; with arguments it is a collection. -/
def builtinType (name : String) (args : List TypeExpr) : StateM Tables TypeId :=
  if args.isEmpty then Tables.enterSymbol name "builtins" .builtin .builtin
  else collectionType inner file name args

/-- The type that an assigned name stands for. -/
def assignedType (id : AssignmentId) : StateM Tables TypeId :=
  match b.assignment? id with
  | none => Tables.enter .unknown
  | some a =>
    match b.file? a.file with
    | none => Tables.enter .unknown
    | some m =>
      match a.definition.value with
      | .newType _ =>
        Tables.enterSymbol (Dotted.qualify m.name a.definition.name) m.name .typeAlias .typeAlias
      | .expression text =>
        if a.definition.isAlias then inner a.file (b.annotation text) else Tables.enter .unknown
      | .missing => Tables.enter .unknown

/-- The form of `typing` that a name may be, given what it resolves to. -/
def formName? (name : String) (entity : Option Entity) : Option String :=
  match entity with
  | some (.external qualified) =>
    let (module, short) := Dotted.splitQualified qualified
    if typingModules.contains module then some short else none
  | none => some (Dotted.last name)
  | some _ => none

/-- The type of a name with type arguments. -/
def namedType (name : String) (args : List TypeExpr) : StateM Tables TypeId :=
  let entity := b.resolve file name
  match (formName? name entity).bind fun form => formType? inner file form args with
  | some typed => typed
  | none =>
    match entity with
    | some (.builtin builtin) => builtinType inner file builtin args
    | some (.classDef id) =>
      Tables.enter ((b.class? id).elim .unknown fun c => .projectClass c.symbol)
    | some (.assignment id) => b.assignedType inner id
    | some (.external qualified) =>
      Tables.enterSymbol qualified (Dotted.splitQualified qualified).1 .external .external
    | some (.function _) | some (.module _) | none => Tables.enter .unknown

end Forms

/-- The type of an expression, of at most so many levels. -/
def typeWithin : Nat → FileId → TypeExpr → StateM Tables TypeId
  | 0, _, _ => Tables.enter .unknown
  | n + 1, file, e =>
    match e with
    | .none => Tables.enter .noneType
    | .string text => typeWithin n file (b.annotation text)
    | .union items => unionType (typeWithin n) file items
    | .name name => b.namedType (typeWithin n) file name []
    | .subscript base args => b.namedType (typeWithin n) file base args
    | .ellipsis | .number _ | .list _ | .other _ | .invalid _ => Tables.enter .unknown

/-- The type of an annotation in a file. -/
def typeOf (file : FileId) (text : String) : StateM Tables TypeId :=
  b.typeWithin depthBound file (b.annotation text)

end Codebase

end CallFill
