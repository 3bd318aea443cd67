import CallFill.KeyedList
import CallFill.Options
import CallFill.Union.Basic
import CallFill.Value

/-!
# Writing a value for a type

A declared type becomes the text of an expression, and the symbols that text needs. Records are
written as constructor calls with a value for each field, collections as literals around their
elements, aliases and plain classes as calls. What is deeper than the configured level, and what
nothing is known about, becomes the sentinel.

The recursion counts the levels that are left. Settling a union costs no level: a union's leaves are
no unions, so `atomValue` writes the leaf with the levels the union had.
-/

namespace CallFill

/-- The rendered name of the chosen member, by the signature of its union. -/
abbrev Selections := KeyedList String String

/-- What every value of one population is written from. -/
structure Synthesis where
  host : Host
  config : Config
  options : Options
  selections : Selections
  /-- The file the text goes into. -/
  file : FileId

/-- An alias around the sentinel. -/
def aliasPlaceholder (name : String) : String :=
  name ++ "(" ++ sentinel ++ ")"

namespace Synthesis

variable (s : Synthesis)

/-- The name that refers to a symbol in the target file: a visible alias, or its own name. -/
def reference (symbol : SymbolId) : Option String :=
  match s.host.visibleAlias s.file symbol with
  | some name => some name
  | none => (s.host.symbol symbol).map Symbol.name

/-- An alias symbol around the sentinel, unless the name that refers to it is a builtin's. -/
def aliasWrap (symbol : SymbolId) : Option Value :=
  match s.reference symbol with
  | none => none
  | some name =>
    if s.config.isBuiltinName name then none
    else some { text := aliasPlaceholder name, symbols := [symbol] }

/-- The value of a field: an alias around the sentinel where only the alias is known. -/
def fieldValue (field : Field) (value : Value) : Value :=
  if value.isSentinel then (field.aliasSymbol.bind s.aliasWrap).getD value else value

/-- A record as a constructor call with a value for every field; `below` writes the values. -/
def recordValue (below : TypeId → Option String → Value) (symbol : SymbolId)
    (fields : List Field) : Value :=
  if !s.options.recursive || fields.isEmpty then .unknown
  else
    match s.reference symbol with
    | none => .unknown
    | some name =>
      let values := fields.map fun f => (f.name, s.fieldValue f (below f.type f.defaultText))
      { text := name ++ "(" ++ ", ".intercalate (values.map fun v => v.1 ++ "=" ++ v.2.text) ++ ")"
        symbols := values.foldl (fun acc v => mergeSymbols acc v.2.symbols) [symbol] }

/-- A collection as a literal; `below` writes the elements. -/
def collectionValue (below : TypeId → Option String → Value) :
    CollectionKind → List TypeId → Value
  | .list, item :: _ => (below item none).wrap "[" "]"
  | .set, item :: _ => (below item none).wrap "\x7b" "\x7d"
  | .tuple, [item] => (below item none).wrap "(" ")"
  | .tuple, items@(_ :: _ :: _) =>
    let values := items.map (below · none)
    { text := "(" ++ ", ".intercalate (values.map Value.text) ++ ")"
      symbols := values.foldl (fun acc v => mergeSymbols acc v.symbols) [] }
  | .dict, key :: value :: _ =>
    let key := below key none
    let value := below value none
    { text := "\x7b" ++ key.text ++ ": " ++ value.text ++ "\x7d"
      symbols := mergeSymbols (mergeSymbols [] key.symbols) value.symbols }
  | _, _ => .unknown

/-- A builtin type as a constructor call, where those are wanted and need no arguments. -/
def builtinValue (type : TypeId) (symbol : Option SymbolId) (name : String) : Value :=
  if !s.options.useConstructors || s.host.needsArguments type then .unknown
  else
    match symbol with
    | some symbol => { text := (s.reference symbol).getD name ++ "()", symbols := [symbol] }
    | none => { text := name ++ "()" }

/-- An alias around the sentinel, unless it is named as a builtin. -/
def aliasValue (symbol : Option SymbolId) (name : String) : Value :=
  if s.config.isBuiltinName name then .unknown
  else
    match symbol with
    | some symbol => (s.aliasWrap symbol).getD .unknown
    | none => { text := aliasPlaceholder name }

/-- A class as a constructor call, unless constructor calls are wanted whole and this one needs
arguments. -/
def plainValue (type : TypeId) (symbol : SymbolId) : Value :=
  if s.options.useConstructors && s.host.needsArguments type then .unknown
  else
    match s.host.visibleAlias s.file symbol with
    | some name => { text := name ++ "()" }
    | none =>
      match s.host.symbol symbol with
      | some sym => { text := sym.name ++ "()", symbols := [symbol] }
      | none => .unknown

/-- The leaf that was chosen for a union, if a choice was made that names one. -/
def selected (flat : List TypeId) : Option TypeId :=
  if 2 ≤ flat.length then
    match s.selections.get? (Union.signature s.host flat) with
    | some choice => flat.find? fun t => s.host.displayName t = choice
    | none => none
  else none

/-- The leaf that stands for a union: the chosen one, or what the union settles to. -/
def pick (members : List TypeId) (existing : Option String) : Option TypeId :=
  let flat := Union.flatten s.host members
  match s.selected flat with
  | some t => some t
  | none =>
    match Union.resolve s.host s.config flat existing with
    | .single t | .matched t => some t
    | .choice ranked => Union.defaultPick s.host ranked
    | .unresolved => none

/-- The value of a type that is no union; `below` writes its parts. -/
def atomValue (below : TypeId → Option String → Value) (type : TypeId) : Value :=
  match s.host.shape type with
  | .record symbol fields => s.recordValue below symbol fields
  | .collection kind elements => collectionValue below kind elements
  | .builtin symbol name => s.builtinValue type symbol name
  | .typeAlias symbol name => s.aliasValue symbol name
  | .plain symbol => s.plainValue type symbol
  | .union _ | .literal | .anyLike _ | .noneType | .unknown => .unknown

/-- The value of a type with so many levels left; `existing` is the text that stands in for the
value now. -/
def valueWithin : Nat → TypeId → Option String → Value
  | 0, _, _ => .unknown
  | levels + 1, type, existing =>
    match (s.host.shape type).members? with
    | some members =>
      match s.pick members existing with
      | some leaf => s.atomValue (valueWithin levels) leaf
      | none => .unknown
    | none => s.atomValue (valueWithin levels) type

/-- The value of a type at a depth. -/
def value (type : TypeId) (depth : Nat) (existing : Option String := none) : Value :=
  s.valueWithin (s.config.maxDepth + 1 - depth) type existing

end Synthesis

end CallFill
