/-!
# Handles

Symbols, types, calls, files, scopes and definitions are named by their positions in the tables that
hold them. Each has a handle type of its own, so that a position in one table is never read in
another.
-/

namespace CallFill

/-- A symbol known to the type model: a class, an alias, a builtin or an external name. -/
structure SymbolId where
  index : Nat
  deriving DecidableEq, Repr, Inhabited

/-- An interned type. -/
structure TypeId where
  index : Nat
  deriving DecidableEq, Repr, Inhabited

/-- A call expression in some file. -/
structure CallId where
  index : Nat
  deriving DecidableEq, Repr, Inhabited

/-- A source file. -/
structure FileId where
  index : Nat
  deriving DecidableEq, Repr, Inhabited

/-- A lexical scope: the body of a module, a class or a function. -/
structure ScopeId where
  index : Nat
  deriving DecidableEq, Repr, Inhabited

/-- A class of a codebase. -/
structure ClassId where
  index : Nat
  deriving DecidableEq, Repr, Inhabited

/-- A function at the top level of a module. -/
structure FunctionId where
  index : Nat
  deriving DecidableEq, Repr, Inhabited

/-- A name assigned at the top level of a module. -/
structure AssignmentId where
  index : Nat
  deriving DecidableEq, Repr, Inhabited

/-- The name of a call in messages. -/
def CallId.label (c : CallId) : String := "call_" ++ toString c.index

/-- The name of a file in messages. -/
def FileId.label (f : FileId) : String := "file_" ++ toString f.index

/-- The name of a symbol in messages. -/
def SymbolId.label (s : SymbolId) : String := "sym_" ++ toString s.index

end CallFill
