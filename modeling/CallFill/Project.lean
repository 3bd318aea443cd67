import CallFill.Codebase.Record
import CallFill.Typing

/-!
# Projects

A project is a codebase whose annotations have been read as types: each class has typed fields and
methods, each function typed parameters. From these follow the fields of a record, the parameters of
a constructor, and the method a class has by a name.
-/

namespace CallFill

/-- A function with the types of its parameters, where they are annotated. -/
structure TypedFunction where
  definition : FunctionDef
  types : List (Option TypeId)

/-- A field with its type. -/
structure TypedField where
  definition : FieldDef
  type : TypeId
  /-- The alias that is the field's type, if it is one. -/
  aliasSymbol : Option SymbolId

/-- The fields and methods of a class, with their types. -/
structure TypedClass where
  fields : List TypedField
  methods : List TypedFunction

/-- A codebase with the types of its annotations; the typed classes and functions are in the order
of the classes and functions. -/
structure Project extends Codebase where
  types : TypeTable
  typedClasses : List TypedClass
  typedFunctions : List TypedFunction

namespace TypeNode

/-- The symbol of an alias. -/
def aliasSymbol? : TypeNode → Option SymbolId
  | typeAlias symbol => some symbol
  | _ => none

/-- The symbol a type is named by. -/
def symbol? : TypeNode → Option SymbolId
  | builtin symbol | projectClass symbol | typeAlias symbol | external symbol => some symbol
  | _ => none

end TypeNode

namespace Codebase

variable (b : Codebase)

/-- The type of a parameter, if it is annotated. -/
def typeOfParameter (file : FileId) (p : ParameterDef) : StateM Tables (Option TypeId) :=
  match p.typeText with
  | some text => do return some (← b.typeOf file text)
  | none => return none

/-- Types the parameters of a function. -/
def typeFunction (file : FileId) (f : FunctionDef) : StateM Tables TypedFunction := do
  return { definition := f, types := ← f.parameters.mapM (b.typeOfParameter file) }

/-- Types a field. -/
def typeField (file : FileId) (f : FieldDef) : StateM Tables TypedField := do
  let type ← b.typeOf file f.typeText
  return { definition := f, type, aliasSymbol := ((← get).types.node type).aliasSymbol? }

/-- Types the fields and methods of a class. -/
def typeClass (c : ClassEntry) : StateM Tables TypedClass := do
  let fields ← c.definition.fields.mapM (b.typeField c.file)
  let methods ← c.definition.methods.mapM (b.typeFunction c.file)
  return { fields, methods }

/-- Types all classes and then all functions. -/
def typeAll : StateM Tables (List TypedClass × List TypedFunction) := do
  let classes ← b.classes.mapM b.typeClass
  let functions ← b.functions.mapM fun f => b.typeFunction f.file f.definition
  return (classes, functions)

end Codebase

namespace Project

/-- The project of a codebase. -/
def ofCodebase (b : Codebase) : Project :=
  let ((typedClasses, typedFunctions), tables) := b.typeAll.run { symbols := b.symbols }
  { b with symbols := tables.symbols, types := tables.types, typedClasses, typedFunctions }

/-- The project of source texts, each with its path. One reader gives the trees of the texts and of
the annotations in them. -/
def ofSources (config : Config) (sources : List (String × String))
    (read : Source.TreeReader := Source.parse) : Project :=
  ofCodebase
    (Codebase.ofModules config (sources.map fun s => SourceModule.ofText s.1 s.2 read) read)

variable (p : Project)

/-- The fields and methods of a class. -/
def typedClass? (id : ClassId) : Option TypedClass :=
  p.typedClasses[id.index]?

/-- A field as the constructor of its record takes it. -/
def constructorField (f : TypedField) : Field where
  name := f.definition.keyword.getD f.definition.name
  type := f.type
  aliasSymbol := f.aliasSymbol
  defaultText := f.definition.defaultText
  isKeywordOnly := f.definition.isKeywordOnly

/-- A table of fields with what one field of a class adds: a field replaces the one of its name
where that stands, and one that the constructor does not take removes it. -/
def withField (fields : KeyedList String Field) (f : TypedField) : KeyedList String Field :=
  if p.config.isConfigMarker f.definition.name then fields
  else if f.definition.isInit then
    KeyedList.put fields f.definition.name (constructorField f)
  else KeyedList.drop fields f.definition.name

/-- The fields of a record by their names, looking at record bases at most so many levels up; the
last base comes first. -/
def recordFieldsWithin : Nat → ClassId → KeyedList String Field
  | 0, _ => []
  | n + 1, id =>
    let inherited := (p.baseClasses id).reverse.foldl (fun fields base =>
      if (p.recordOriginWithin n base).isSome then
        KeyedList.putAll fields (recordFieldsWithin n base)
      else fields) []
    ((p.typedClass? id).elim [] TypedClass.fields).foldl p.withField inherited

/-- The fields of a record, inherited ones first. -/
def recordFields (id : ClassId) : List Field :=
  (p.recordFieldsWithin Codebase.depthBound id).map (·.2)

/-- The parameters of a function; the first is left out where a receiver is bound to it, which it
never is in a static method. -/
def parametersOf (f : TypedFunction) (isBound : Bool) : List Parameter :=
  let parameters := (f.definition.parameters.zip f.types).map fun (d, type) =>
    { name := d.name
      type
      hasDefault := d.defaultText.isSome
      isPositionalOnly := d.kind = .positionalOnly
      isKeywordOnly := d.kind = .keywordOnly
      isVariadic := d.kind = .varPositional || d.kind = .varKeyword
      defaultText := d.defaultText : Parameter }
  if isBound && !hasDecorator f.definition.decorators "staticmethod" then parameters.drop 1
  else parameters

/-- The first method of a class itself by a name. -/
def ownMethod? (id : ClassId) (name : String) : Option TypedFunction :=
  (p.typedClass? id).bind fun c => c.methods.find? fun m => m.definition.name = name

/-- The parameters of a class's constructor, looking at bases at most so many levels up. -/
def constructorParametersWithin : Nat → ClassId → Option (List Parameter)
  | 0, _ => none
  | n + 1, id =>
    match p.ownMethod? id "__init__" with
    | some init => some (parametersOf init true)
    | none =>
      if (p.recordOriginWithin (n + 1) id).isSome then
        some ((p.recordFields id).map fun f => f.toParameter f.aliasSymbol)
      else (p.baseClasses id).findSome? (constructorParametersWithin n)

/-- The parameters of a class's constructor, without the receiver: those of its own initializer,
else the fields of a record, else those of the first base that has some. -/
def constructorParameters (id : ClassId) : Option (List Parameter) :=
  p.constructorParametersWithin Codebase.depthBound id

/-- The method a class has by a name, looking at bases at most so many levels up. -/
def methodWithin (name : String) : Nat → ClassId → Option TypedFunction
  | 0, _ => none
  | n + 1, id =>
    match p.ownMethod? id name with
    | some m => some m
    | none => (p.baseClasses id).findSome? (methodWithin name n)

/-- The method a class has by a name: its own, else that of the first base that has one. -/
def method? (id : ClassId) (name : String) : Option TypedFunction :=
  p.methodWithin name Codebase.depthBound id

end Project

end CallFill
