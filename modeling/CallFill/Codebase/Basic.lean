import CallFill.Config
import CallFill.SourceModule
import CallFill.TypeTable

/-!
# Codebases

The modules of a set of files, with their classes, functions, assigned names, scopes and calls
listed through all files in order. Of two files with one module name the first is the module; the
other file keeps what it defines to itself. What a name stands for in a file is found by looking at
the lists: the last class of that name outside all others, else the last function, else the last
assignment, else the last import.
-/

namespace CallFill

/-- A class and where it is defined. -/
structure ClassEntry where
  symbol : SymbolId
  qualifiedName : String
  file : FileId
  definition : ClassDef

/-- A function and where it is defined. -/
structure FunctionEntry where
  file : FileId
  definition : FunctionDef

/-- An assigned name and where it is assigned. -/
structure AssignmentEntry where
  file : FileId
  definition : AssignmentDef

/-- A call and where it stands in the text of its file. -/
structure CallRecord where
  site : CallSite
  start : Nat
  stop : Nat
  openParen : Nat
  closeParen : Nat
  lastArgumentEnd : Option Nat
  enclosingClass : Option String
  deriving DecidableEq, Repr

/-- A scope of some file. -/
structure ScopeRecord where
  file : FileId
  kind : ScopeKind
  parent : Option ScopeId
  bindings : KeyedList String BindingKind
  imports : List Import

/-- The modules of a set of files. -/
structure Codebase where
  config : Config
  /-- What reads the texts of annotations. -/
  read : Source.TreeReader := Source.parse
  files : List SourceModule := []
  classes : List ClassEntry := []
  functions : List FunctionEntry := []
  assignments : List AssignmentEntry := []
  calls : List CallRecord := []
  scopes : List ScopeRecord := []
  symbols : SymbolTable := {}

namespace Codebase

/-- Adds a class of a file. -/
def addClass (file : FileId) (module : String) (b : Codebase) (definition : ClassDef) : Codebase :=
  let qualifiedName := Dotted.qualify module definition.name
  let (symbol, symbols) := b.symbols.intern qualifiedName module .classType
  { b with symbols, classes := b.classes ++ [{ symbol, qualifiedName, file, definition }] }

/-- A scope of a file as a scope of the codebase; `base` scopes come before the file's. -/
def scopeRecord (file : FileId) (base : Nat) (s : ScopeDef) : ScopeRecord where
  file := file
  kind := s.kind
  parent := s.parent.map fun p => ⟨base + p⟩
  bindings := s.bindings
  imports := s.imports

/-- A call of a file as a call of the codebase; `base` scopes come before the file's. -/
def callRecord (file : FileId) (base : Nat) (id : CallId) (c : CallDef) : CallRecord where
  site := {
    id, file, scope := ⟨base + c.scope⟩, callee := c.callee
    positional := c.positional, keywords := c.keywords, unpacking := c.unpacking }
  start := c.start
  stop := c.stop
  openParen := c.openParen
  closeParen := c.closeParen
  lastArgumentEnd := c.lastArgumentEnd
  enclosingClass := c.enclosingClass

/-- The calls of a file as calls of the codebase, numbered from `next`. -/
def callRecords (file : FileId) (base : Nat) : Nat → List CallDef → List CallRecord
  | _, [] => []
  | next, c :: cs => callRecord file base ⟨next⟩ c :: callRecords file base (next + 1) cs

/-- Adds a module. -/
def add (b : Codebase) (m : SourceModule) : Codebase :=
  let file : FileId := ⟨b.files.length⟩
  let b := m.definitions.classes.foldl (addClass file m.name) b
  { b with
    files := b.files ++ [m]
    functions := b.functions ++ m.definitions.functions.map (⟨file, ·⟩)
    assignments := b.assignments ++ m.definitions.assignments.map (⟨file, ·⟩)
    calls := b.calls ++ callRecords file b.scopes.length b.calls.length m.outline.calls
    scopes := b.scopes ++ m.outline.scopes.map (scopeRecord file b.scopes.length) }

/-- The codebase of some modules. -/
def ofModules (config : Config) (modules : List SourceModule)
    (read : Source.TreeReader := Source.parse) : Codebase :=
  modules.foldl add { config, read }

variable (b : Codebase)

/-- The module in a file. -/
def file? (id : FileId) : Option SourceModule :=
  b.files[id.index]?

/-- The class of a handle. -/
def class? (id : ClassId) : Option ClassEntry :=
  b.classes[id.index]?

/-- The function of a handle. -/
def function? (id : FunctionId) : Option FunctionEntry :=
  b.functions[id.index]?

/-- The assigned name of a handle. -/
def assignment? (id : AssignmentId) : Option AssignmentEntry :=
  b.assignments[id.index]?

/-- The call of a handle. -/
def call? (id : CallId) : Option CallRecord :=
  b.calls[id.index]?

/-- The scope of a handle. -/
def scope? (id : ScopeId) : Option ScopeRecord :=
  b.scopes[id.index]?

/-- The first file with a path, however the path is spelled. -/
def fileByPath? (path : String) : Option FileId :=
  (b.files.findIdx? fun m => FilePath.normalized m.path = FilePath.normalized path).map FileId.mk

/-- The file that is the module of a name. -/
def moduleFile? (name : String) : Option FileId :=
  (b.files.findIdx? fun m => m.name = name).map FileId.mk

/-- Whether a module of that name is in the codebase. -/
def hasModule (name : String) : Bool :=
  (b.moduleFile? name).isSome

/-- The position of the last entry that passes a test. -/
def lastIndex? {α : Type} (entries : List α) (test : α → Bool) : Option Nat :=
  (entries.reverse.findIdx? test).map fun i => entries.length - 1 - i

/-- The last class with a symbol. -/
def classOfSymbol? (symbol : SymbolId) : Option ClassId :=
  (lastIndex? b.classes fun c => c.symbol = symbol).map ClassId.mk

/-- The last class at a dotted path in a file. -/
def classAtPath? (file : FileId) (path : String) : Option ClassId :=
  (lastIndex? b.classes fun c => c.file = file && c.definition.name = path).map ClassId.mk

/-- What a name can be declared as in a file. -/
inductive Declared where
  | classDef (id : ClassId)
  | function (id : FunctionId)
  | assignment (id : AssignmentId)
  | imported (statement : Import)

/-- What a name is declared as at the top level of a file. -/
def declared? (file : FileId) (name : String) : Option Declared :=
  (if name.toList.contains '.' then none else (b.classAtPath? file name).map .classDef) <|>
  ((lastIndex? b.functions fun f => f.file = file && f.definition.name = name).map
    fun i => .function ⟨i⟩) <|>
  ((lastIndex? b.assignments fun a => a.file = file && a.definition.name = name).map
    fun i => .assignment ⟨i⟩) <|>
  ((b.file? file).bind fun m =>
    (m.definitions.imports.reverse.find? fun i => i.boundName = name).map .imported)

/-- The first of the shortest among some calls. -/
def shortest : List CallRecord → Option CallRecord
  | [] => none
  | c :: cs =>
    match shortest cs with
    | some d => if d.stop - d.start < c.stop - c.start then some d else some c
    | none => some c

/-- The innermost call of a file whose text holds or touches a byte offset. -/
def callAt? (file : FileId) (offset : Nat) : Option CallRecord :=
  shortest (b.calls.filter fun c => c.site.file = file && c.start ≤ offset && offset ≤ c.stop)

/-- Looks a name up from a scope outwards, through at most so many scopes. Class bodies do not show
their names to the scopes inside them. -/
def lookupFrom (name : String) : Nat → (isFirst : Bool) → ScopeId → Option (ScopeId × BindingKind)
  | 0, _, _ => none
  | n + 1, isFirst, id =>
    match b.scope? id with
    | none => none
    | some s =>
      match if isFirst || s.kind != .classBody then KeyedList.get? s.bindings name else none with
      | some kind => some (id, kind)
      | none =>
        match s.parent with
        | none => none
        | some parent => lookupFrom name n false parent

/-- The innermost scope around a scope that binds a name, and how. Every scope comes after the one
around it, so the search ends. -/
def lookup? (name : String) (scope : ScopeId) : Option (ScopeId × BindingKind) :=
  b.lookupFrom name (scope.index + 1) true scope

end Codebase

end CallFill
