import CallFill.Codebase.Basic

/-!
# Name resolution

What a dotted name means in a file or from a scope. The first segment is looked up among the names
the file declares, imports being followed into other files, and then among the builtins; every
further segment is a member of what came before. Modules that are not in the codebase have whatever
members they are asked for, known by name only.

A name is looked up in a bounded number of files, so that imports in a circle lead nowhere.
-/

namespace CallFill

/-- What a name refers to. -/
inductive Entity where
  | classDef (id : ClassId)
  | function (id : FunctionId)
  | assignment (id : AssignmentId)
  | module (name : String)
  /-- Something outside the codebase, by its qualified name. -/
  | external (name : String)
  | builtin (name : String)
  deriving DecidableEq, Repr

namespace Codebase

/-- In how many files a name is looked up: in the file that uses it, and in one more for each of
eight imports. -/
def fileBound : Nat := 9

/-- In how many files a member of a module is looked up. -/
def memberFileBound : Nat := 8

/-- How many classes are looked at on a walk through base classes, and how many expressions inside
one another are read as a type. -/
def depthBound : Nat := 17

variable (b : Codebase)

/-- The module, and perhaps the member of it, that an import in a file names. A plain import of a
dotted path binds the first package of the path. -/
def importTarget (m : SourceModule) (i : Import) : Option (String × Option String) :=
  (ModuleName.absolute m.name m.isPackage i.module).map fun module =>
    match i.name, i.asName with
    | some name, _ => (module, some name)
    | none, some _ => (module, none)
    | none, none => (Dotted.first module, none)

/-- A member of a module, where `look` looks names up in files. A package's submodule is its member
unless the package itself declares the name. -/
def memberOfModule (look : FileId → String → Option Entity) (module name : String) :
    Option Entity :=
  let submodule := Dotted.qualify module name
  match b.moduleFile? module with
  | some file =>
    look file name <|> (if b.hasModule submodule then some (.module submodule) else none)
  | none => some (if b.hasModule submodule then .module submodule else .external submodule)

/-- What an import in a file binds its name to, where `look` looks names up in files. -/
def importedEntity (look : FileId → String → Option Entity) (m : SourceModule) (i : Import) :
    Option Entity :=
  match importTarget m i with
  | none => none
  | some (module, none) => some (.module module)
  | some (module, some name) => b.memberOfModule look module name

/-- What a name declared in a file refers to, looked up in at most so many files. -/
def entityIn : Nat → FileId → String → Option Entity
  | 0, _, _ => none
  | n + 1, file, name =>
    match b.declared? file name with
    | none => none
    | some (.classDef id) => some (.classDef id)
    | some (.function id) => some (.function id)
    | some (.assignment id) => some (.assignment id)
    | some (.imported i) => (b.file? file).bind fun m => b.importedEntity (entityIn n) m i

/-- A builtin of that name. -/
def builtinEntity (name : String) : Option Entity :=
  if b.config.isBuiltinName name then some (.builtin name) else none

/-- A member of an entity. -/
def member (e : Entity) (name : String) : Option Entity :=
  match e with
  | .module module => b.memberOfModule (b.entityIn memberFileBound) module name
  | .external outer => some (.external (Dotted.qualify outer name))
  | .classDef id =>
    (b.class? id).bind fun c =>
      (b.classAtPath? c.file (Dotted.below c.definition.name name)).map .classDef
  | .function _ | .assignment _ | .builtin _ => none

/-- The members of an entity, one below another. -/
def members (e : Entity) (names : List String) : Option Entity :=
  names.foldlM b.member e

/-- The segments of a dotted name, without the blanks around them. -/
def segmentsOf (dotted : String) : List String :=
  (Dotted.segments dotted).map Text.trimmed

/-- What a dotted name means at the top level of a file. -/
def resolve (file : FileId) (dotted : String) : Option Entity :=
  match segmentsOf dotted with
  | [] => none
  | first :: rest =>
    if first = "" then none
    else
      match b.entityIn fileBound file first <|> b.builtinEntity first with
      | none => none
      | some e => b.members e rest

/-- What a dotted name means inside a scope. A name bound in a function or class body means what
that body imports by it, and nothing if it is bound otherwise. -/
def resolveFrom (scope : ScopeId) (dotted : String) : Option Entity :=
  match b.scope? scope, segmentsOf dotted with
  | some inner, first :: rest =>
    match (b.lookup? first scope).bind fun found => b.scope? found.1 with
    | none => b.resolve inner.file dotted
    | some binder =>
      if binder.kind = .moduleBody then b.resolve inner.file dotted
      else
        match binder.imports.reverse.find? fun i => i.boundName = first with
        | none => none
        | some i =>
          ((b.file? inner.file).bind fun m =>
            b.importedEntity (b.entityIn memberFileBound) m i).bind fun e => b.members e rest
  | _, _ => none

/-- The name by which an entity is known everywhere. -/
def qualifiedName (e : Entity) : String :=
  let inFile (file : FileId) (name : String) : String :=
    (b.file? file).elim "" fun m => Dotted.qualify m.name name
  match e with
  | .classDef id => (b.class? id).elim "" ClassEntry.qualifiedName
  | .function id => (b.function? id).elim "" fun f => inFile f.file f.definition.name
  | .assignment id => (b.assignment? id).elim "" fun a => inFile a.file a.definition.name
  | .module name | .external name | .builtin name => name

end Codebase

end CallFill
