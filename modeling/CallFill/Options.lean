import CallFill.Error
import CallFill.Json
import CallFill.Text.Blank

/-!
# Options of a population

Which parameters of a call are filled, and with what kind of value.
-/

namespace CallFill

/-- Which missing parameters are filled. -/
inductive Mode where
  | all
  | requiredOnly
  deriving DecidableEq, Repr

namespace Mode

/-- The name of a mode in records. -/
def name : Mode → String
  | .all => "all"
  | .requiredOnly => "required_only"

/-- The mode a text names, whatever its case, with hyphens for underscores. -/
def ofText (text : String) : Except Error Mode :=
  let normal := String.ofList ((Text.trim text.toList).map fun c =>
    if c == '-' then '_' else c.toLower)
  if normal = "all" then .ok .all
  else if normal = "required" ∨ normal = "required_only" then .ok .requiredOnly
  else .error (.unknownMode normal)

/-- The mode with exactly this name in records. -/
def ofName? (s : String) : Option Mode :=
  if s = "all" then some .all
  else if s = "required_only" then some .requiredOnly
  else none

/-- A mode in a record: its name, or an object whose one member is that name with nothing in it. -/
def ofJson? : Json → Option Mode
  | .text s => ofName? s
  | .object [(s, .null)] => ofName? s
  | _ => none

end Mode

/-- How a call is filled. -/
structure Options where
  mode : Mode := .all
  /-- Whether a record is written out with values for its fields. -/
  recursive : Bool := true
  /-- Whether a variable in scope with the parameter's name is passed. -/
  useLocalScope : Bool := false
  /-- Whether builtin types are written as constructor calls. -/
  useConstructors : Bool := false
  deriving DecidableEq, Repr

namespace Options

/-- The defaults, but for required parameters only. -/
def requiredOnly : Options := { mode := .requiredOnly }

/-- These options with variables in scope passed by name. -/
def withLocalScope (o : Options) : Options := { o with useLocalScope := true }

/-- These options with constructor calls for builtin types. -/
def withConstructors (o : Options) : Options := { o with useConstructors := true }

/-- These options without writing out nested records. -/
def flat (o : Options) : Options := { o with recursive := false }

/-- A flag in a record. -/
def flagOf? : Json → Option Bool
  | .bool b => some b
  | _ => none

/-- The options a JSON object describes; what it does not mention keeps its default. -/
def ofJson? : Json → Option Options
  | .object members => do
    let d : Options := {}
    return {
      mode := ← Json.field members "mode" d.mode Mode.ofJson?
      recursive := ← Json.field members "recursive" d.recursive flagOf?
      useLocalScope := ← Json.field members "use_local_scope" d.useLocalScope flagOf?
      useConstructors := ← Json.field members "use_constructors" d.useConstructors flagOf? }
  | _ => none

end Options

end CallFill
