import CallFill.Error
import CallFill.Json
import CallFill.Text.Dotted

/-!
# Configuration

The tables of names the engine consults, and the deepest level at which it still writes a value. A
configuration starts from `Config.default`; a JSON file replaces the tables it mentions, and a depth
given beside it wins over the file's.
-/

namespace CallFill

/-- What the engine is told about names, and how deep it may go. -/
structure Config where
  /-- The deepest level at which a value is still written. -/
  maxDepth : Nat
  builtinNames : List String
  primitiveNames : List String
  /-- Top-level packages of the standard library. -/
  stdlibModules : List String
  /-- Decorators, short or qualified, that make a class a record. -/
  recordDecorators : List String
  /-- Bases, short or qualified, whose subclasses are records. -/
  recordBases : List String
  /-- Class attributes that configure a record and declare no field. -/
  configMarkers : List String

namespace Config

/-- The configuration used where nothing else is said. -/
def default : Config where
  maxDepth := 5
  builtinNames := [
    "object", "int", "float", "complex", "bool", "str", "bytes", "bytearray", "memoryview",
    "list", "tuple", "set", "frozenset", "dict", "range", "slice", "type", "property",
    "Exception", "BaseException", "ValueError", "TypeError", "KeyError", "RuntimeError"]
  primitiveNames := ["str", "int", "float", "bool", "bytes", "complex"]
  stdlibModules := [
    "abc", "argparse", "array", "asyncio", "base64", "collections", "contextlib", "copy",
    "csv", "dataclasses", "datetime", "decimal", "enum", "fractions", "functools", "hashlib",
    "http", "io", "ipaddress", "itertools", "json", "logging", "math", "numbers", "operator",
    "os", "pathlib", "pickle", "queue", "random", "re", "socket", "sqlite3", "statistics",
    "string", "subprocess", "sys", "tempfile", "threading", "time", "types", "typing",
    "typing_extensions", "unittest", "urllib", "uuid", "weakref", "xml", "zoneinfo"]
  recordDecorators := [
    "dataclass", "dataclasses.dataclass", "pydantic.dataclasses.dataclass", "attr.s",
    "attr.attrs", "attr.define", "attr.frozen", "attrs.define", "attrs.frozen", "attrs.mutable"]
  recordBases := [
    "BaseModel", "pydantic.BaseModel", "pydantic.main.BaseModel", "NamedTuple",
    "typing.NamedTuple", "TypedDict", "typing.TypedDict", "typing_extensions.TypedDict",
    "msgspec.Struct"]
  configMarkers := ["model_config"]

/-- Whether the name is a builtin's. -/
def isBuiltinName (c : Config) (name : String) : Bool :=
  c.builtinNames.contains name

/-- Whether the name is that of a primitive type. -/
def isPrimitive (c : Config) (name : String) : Bool :=
  c.primitiveNames.contains name

/-- Whether a dotted module path lies below a package of the standard library. -/
def isStdlibModule (c : Config) (module : String) : Bool :=
  c.stdlibModules.contains (Dotted.first module)

/-- Whether a table holds a name as written or as qualified. -/
def listed (table : List String) (raw : String) (qualified : Option String) : Bool :=
  table.contains raw || qualified.any table.contains

/-- Whether a decorator makes a class a record. -/
def isRecordDecorator (c : Config) (raw : String) (qualified : Option String) : Bool :=
  listed c.recordDecorators raw qualified

/-- Whether a base makes its subclasses records. -/
def isRecordBase (c : Config) (raw : String) (qualified : Option String) : Bool :=
  listed c.recordBases raw qualified

/-- Whether a class attribute configures its record and declares no field. -/
def isConfigMarker (c : Config) (name : String) : Bool :=
  c.configMarkers.contains name

/-- A number of the form records hold. -/
def naturalOf? : Json → Option Nat
  | .natural n => some n
  | _ => none

/-- A table of names. -/
def tableOf? : Json → Option (List String)
  | .array items => Json.texts? items
  | _ => none

/-- The configuration a JSON object describes: what it does not mention keeps its default, members
with other names are passed over. -/
def ofJson? : Json → Option Config
  | .object members => do
    let d := default
    return {
      maxDepth := ← Json.field members "max_depth" d.maxDepth naturalOf?
      builtinNames := ← Json.field members "builtin_names" d.builtinNames tableOf?
      primitiveNames := ← Json.field members "primitive_names" d.primitiveNames tableOf?
      stdlibModules := ← Json.field members "stdlib_modules" d.stdlibModules tableOf?
      recordDecorators := ← Json.field members "record_decorators" d.recordDecorators tableOf?
      recordBases := ← Json.field members "record_bases" d.recordBases tableOf?
      configMarkers := ← Json.field members "config_markers" d.configMarkers tableOf? }
  | _ => none

/-- The configuration in the text of a file. -/
def ofFileText (text : String) : Except Error Config :=
  match (Json.ofText? text).bind ofJson? with
  | some config => .ok config
  | none => .error .json

/-- A depth as given from outside: decimal digits, perhaps after a plus sign, below `2 ^ 64`. -/
def depthOf? (given : String) : Option Nat :=
  let digits := match given.toList with
    | '+' :: rest => rest
    | cs => cs
  if digits.isEmpty || !digits.all Char.isDigit then none
  else
    let n := Json.decimal digits
    if n < UInt64.size then some n else none

/-- A setting given from outside, unless it is blank. -/
def given? (setting : Option String) : Option String :=
  (setting.map Text.trimmed).filter (· ≠ "")

/-- The defaults, overlaid with a file and then with a depth, each unless absent or blank. `read`
gives the text of the file at a path, and none if it cannot be read. -/
def withOverrides (read : String → Option String) (file depth : Option String) :
    Except Error Config := do
  let config ← match given? file with
    | none => pure default
    | some path =>
      match read path with
      | none => throw .io
      | some text => ofFileText text
  match given? depth with
  | none => return config
  | some given =>
    match depthOf? given with
    | some n => return { config with maxDepth := n }
    | none => throw (.badDepth given)

end Config

end CallFill
