import CallFill.Handle

/-!
# Symbols

What a name of the type model stands for, and how a choice between types shows it.
-/

namespace CallFill

/-- What a symbol names. -/
inductive SymbolKind where
  | classType
  | function
  | typeAlias
  | variable
  | builtin
  | external
  deriving DecidableEq, Repr

/-- The name of a symbol kind in reports. -/
def SymbolKind.name : SymbolKind → String
  | .classType => "class"
  | .function => "function"
  | .typeAlias => "alias"
  | .variable => "variable"
  | .builtin => "builtin"
  | .external => "external"

/-- A name of the type model. -/
structure Symbol where
  name : String
  qualifiedName : String
  module : String
  kind : SymbolKind
  deriving DecidableEq, Repr

/-- What a person choosing between types reads: the name, with the qualified name in parentheses
where that says more. -/
def Symbol.label (s : Symbol) : String :=
  if s.name = s.qualifiedName then s.name else s.name ++ " (" ++ s.qualifiedName ++ ")"

/-- Where a type comes from, the most trusted origin first. -/
inductive Bucket where
  | own
  | thirdParty
  | standardLibrary
  | builtin
  deriving DecidableEq, Repr

namespace Bucket

/-- The place of a bucket in the order of preference. -/
def rank : Bucket → Nat
  | .own => 0
  | .thirdParty => 1
  | .standardLibrary => 2
  | .builtin => 3

/-- The name of a bucket in reports. -/
def name : Bucket → String
  | .own => "own"
  | .thirdParty => "third_party"
  | .standardLibrary => "standard_library"
  | .builtin => "builtin"

theorem rank_injective {a b : Bucket} (h : a.rank = b.rank) : a = b := by
  cases a <;> cases b <;> simp_all [rank]

end Bucket

end CallFill
