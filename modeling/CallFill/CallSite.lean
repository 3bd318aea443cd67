import CallFill.TypeShape

/-!
# Calls and what they call

A call as the engine sees it (the arguments it already has), and the signature of the thing called.
-/

namespace CallFill

/-- A parameter of a callee. -/
structure Parameter where
  name : String
  type : Option TypeId := none
  hasDefault : Bool := false
  isPositionalOnly : Bool := false
  isKeywordOnly : Bool := false
  isVariadic : Bool := false
  /-- The alias the field is annotated with, where the callee is a record. -/
  aliasSymbol : Option SymbolId := none
  defaultText : Option String := none
  deriving DecidableEq, Repr

/-- A field as a parameter of its record's constructor. -/
def Field.toParameter (f : Field) (aliasSymbol : Option SymbolId) : Parameter where
  name := f.name
  type := some f.type
  hasDefault := f.defaultText.isSome
  isKeywordOnly := f.isKeywordOnly
  aliasSymbol := aliasSymbol
  defaultText := f.defaultText

/-- What a call calls: its parameters in the order of declaration, without a bound receiver. -/
structure Signature where
  name : String
  parameters : List Parameter
  /-- The record, where the callee is a record's constructor. -/
  record : Option SymbolId := none
  deriving DecidableEq, Repr

/-- A call expression: where it stands and which arguments it has. -/
structure CallSite where
  id : CallId
  file : FileId
  scope : ScopeId
  /-- The text of the expression that is called. -/
  callee : String
  positional : Nat
  keywords : List String
  /-- How many arguments unpack a sequence or a mapping. -/
  unpacking : Nat
  deriving DecidableEq, Repr

namespace CallSite

/-- Whether the call unpacks arguments, so that its keywords are not known. -/
def hasUnpacking (c : CallSite) : Bool :=
  0 < c.unpacking

/-- How many arguments the call has. -/
def argumentCount (c : CallSite) : Nat :=
  c.positional + c.keywords.length + c.unpacking

end CallSite

/-- How a name is bound in a scope. -/
inductive BindingKind where
  | parameter
  | local
  | global
  deriving DecidableEq, Repr

/-- The name of a binding kind in reports. -/
def BindingKind.name : BindingKind → String
  | .parameter => "parameter"
  | .local => "local"
  | .global => "global"

/-- A name bound in a scope. -/
structure Binding where
  name : String
  kind : BindingKind
  deriving DecidableEq, Repr

end CallFill
