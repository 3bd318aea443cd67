import CallFill.CallSite
import CallFill.Symbol

/-!
# Hosts

A host answers the questions the engine asks about types, symbols, scopes and callees. The engine is
written against this interface alone; `Project.host` provides it for a set of source files.
-/

namespace CallFill

/-- Everything the engine reads. -/
structure Host where
  /-- What a type consists of. -/
  shape : TypeId → TypeShape
  /-- The name of a type in signatures, orders and comparisons. -/
  displayName : TypeId → String
  symbolOf : TypeId → Option SymbolId
  symbol : SymbolId → Option Symbol
  /-- Where a symbol comes from. -/
  provenance : SymbolId → Option Bucket
  /-- Whether the initializer of a type has a parameter that every call must give. -/
  needsArguments : TypeId → Bool
  /-- A variable or parameter that is visible from a scope. -/
  lookup : String → ScopeId → Option Binding
  /-- The expression by which a file already names a symbol through an import. -/
  visibleAlias : FileId → SymbolId → Option String
  callee : CallSite → Option Signature

namespace Host

/-- Whether a type is `None`. -/
def isNone (h : Host) (t : TypeId) : Bool :=
  h.shape t = .noneType

end Host

end CallFill
