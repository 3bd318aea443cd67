import CallFill.CallSite
import CallFill.Definition
import CallFill.KeyedList

/-!
# Scopes and calls

A walk over the tree of a module finds its scopes, the names bound in each, and its calls. The
module, every class and every function is a scope; a scope is listed before those inside it, and a
call before those among its own arguments. Default values and base classes belong to the scope
around the function or class. A name keeps the kind of its first binding.
-/

namespace CallFill

open Source

/-- What a scope belongs to. -/
inductive ScopeKind where
  | moduleBody
  | classBody
  | functionBody
  deriving DecidableEq, Repr

/-- The name of a scope kind in reports. -/
def ScopeKind.name : ScopeKind → String
  | .moduleBody => "module"
  | .classBody => "class"
  | .functionBody => "function"

/-- A scope of a module. -/
structure ScopeDef where
  kind : ScopeKind
  /-- The scope around it, by its place in the list of scopes. -/
  parent : Option Nat
  bindings : KeyedList String BindingKind := []
  /-- The imports inside a class or function; those of the module are among its definitions. -/
  imports : List Import := []

/-- A call as it stands in the text, by byte offsets. -/
structure CallDef where
  callee : String
  start : Nat
  stop : Nat
  openParen : Nat
  closeParen : Nat
  positional : Nat
  keywords : List String
  unpacking : Nat
  /-- Where the last argument ends. -/
  lastArgumentEnd : Option Nat
  scope : Nat
  /-- The path of the class the call stands in. -/
  enclosingClass : Option String
  deriving DecidableEq, Repr

/-- The scopes and calls found so far. -/
structure Outline where
  scopes : List ScopeDef := [{ kind := .moduleBody, parent := none }]
  calls : List CallDef := []

namespace Outline

/-- Where in the module the walk is. -/
structure Place where
  scope : Nat := 0
  enclosingClass : Option String := none

/-- The kind of a scope; places outside the list count as the module. -/
def kindOf (o : Outline) (scope : Nat) : ScopeKind :=
  (o.scopes[scope]?).elim .moduleBody ScopeDef.kind

/-- Binds a name, unless the scope binds it already. -/
def bind (o : Outline) (scope : Nat) (name : String) : Outline :=
  { o with scopes := o.scopes.modify scope fun s =>
      { s with bindings :=
          KeyedList.putNew s.bindings name (if s.kind = .moduleBody then .global else .local) } }

/-- Binds names in order. -/
def bindAll (o : Outline) (scope : Nat) (names : List String) : Outline :=
  names.foldl (fun o name => o.bind scope name) o

/-- Binds a name as a parameter. -/
def bindParameter (o : Outline) (scope : Nat) (name : String) : Outline :=
  { o with scopes := o.scopes.modify scope fun s =>
      { s with bindings := KeyedList.put s.bindings name .parameter } }

/-- Binds what an import statement imports; a scope below the module's remembers how. -/
def bindImport (o : Outline) (scope : Nat) (i : Import) : Outline :=
  let o := o.bind scope i.boundName
  { o with scopes := o.scopes.modify scope fun s =>
      if s.kind = .moduleBody then s else { s with imports := s.imports ++ [i] } }

/-- Adds a scope below another. -/
def enter (o : Outline) (kind : ScopeKind) (parent : Nat) : Outline :=
  { o with scopes := o.scopes ++ [{ kind, parent := some parent }] }

variable (source : List Char)

mutual

/-- The names that an assignment to a target binds. -/
def targetNames : SyntaxTree → List String
  | .node kind role start stop children =>
    match kind with
    | .identifier => [SyntaxTree.text source (.node kind role start stop children)]
    | .patternList | .tuplePattern | .listPattern | .listSplatPattern | .asPatternTarget =>
      targetNamesAmong children
    | _ => []

/-- The names that an assignment to several targets binds. -/
def targetNamesAmong : List SyntaxTree → List String
  | [] => []
  | t :: ts => targetNames t ++ targetNamesAmong ts

end

/-- The target that a tree assigns to. -/
def target? (t : SyntaxTree) : Option SyntaxTree :=
  match t.kind with
  | .assignment | .augmentedAssignment | .forStatement | .forInClause => t.child? .left
  | .namedExpression => t.child? .name
  | .asPattern => t.child? .asName
  | _ => none

/-- The name of a parameter. -/
def parameterName? (t : SyntaxTree) : Option String :=
  let nameOf (t : SyntaxTree) : String :=
    match t.kind with
    | .listSplatPattern | .dictionarySplatPattern => Definition.starredName source t
    | _ => t.text source
  match t.kind with
  | .identifier | .listSplatPattern | .dictionarySplatPattern => some (nameOf t)
  | .defaultParameter | .typedDefaultParameter => (t.child? .name).map nameOf
  | .typedParameter => t.children.head?.map nameOf
  | _ => none

/-- Whether a parameter has a default value. -/
def hasDefaultValue (k : Kind) : Bool :=
  k = .defaultParameter || k = .typedDefaultParameter

/-- The call that a tree of that kind is; none without parentheses around its arguments. -/
def callOf? (here : Place) (t : SyntaxTree) : Option CallDef :=
  match t.child? .function, t.child? .arguments with
  | some function, some arguments =>
    let closeParen := arguments.stop - 1
    if Text.slice? source arguments.start (arguments.start + 1) = some ['('] ∧
        Text.slice? source closeParen (closeParen + 1) = some [')'] then
      let call : CallDef := {
        callee := function.text source
        start := t.start, stop := t.stop
        openParen := arguments.start, closeParen
        positional := 1, keywords := [], unpacking := 0
        lastArgumentEnd := some closeParen
        scope := here.scope, enclosingClass := here.enclosingClass }
      if arguments.kind = .generatorExpression then some call
      else
        let given := arguments.children
        let isUnpacking (a : SyntaxTree) : Bool := a.kind = .listSplat || a.kind = .dictionarySplat
        some { call with
          positional := (given.filter Definition.isPositional).length
          keywords := (given.filter fun a => a.kind = .keywordArgument).filterMap fun a =>
            (a.child? .name).map (SyntaxTree.text source)
          unpacking := (given.filter isUnpacking).length
          lastArgumentEnd := given.getLast?.map SyntaxTree.stop }
    else none
  | _, _ => none

/-- Records the call that a tree is. -/
def recordCall (here : Place) (t : SyntaxTree) (o : Outline) : Outline :=
  match callOf? source here t with
  | some call => { o with calls := o.calls ++ [call] }
  | none => o

/-- Where the body of a class stands. -/
def classPlace (here : Place) (name : String) (o : Outline) : Place where
  scope := o.scopes.length
  enclosingClass :=
    match here.enclosingClass, o.kindOf here.scope with
    | some outer, .classBody => some (Dotted.below outer name)
    | _, _ => some name

mutual

/-- Adds the scopes, bindings and calls of a tree. -/
def walk (here : Place) (o : Outline) : SyntaxTree → Outline
  | .node kind role start stop children =>
    let t := SyntaxTree.node kind role start stop children
    match kind with
    | .functionDefinition =>
      let o := match t.child? .name with
        | some name => o.bind here.scope (name.text source)
        | none => o
      let inner : Place := { here with scope := o.scopes.length }
      let o := walkDefaults here inner (o.enter .functionBody here.scope) children
      walkBody inner o children
    | .classDefinition =>
      let name := (t.child? .name).elim "" (SyntaxTree.text source)
      let o := walkBases here (o.bind here.scope name) children
      let inner := classPlace here name o
      walkBody inner (o.enter .classBody here.scope) children
    | .importStatement | .fromImport =>
      (Definition.imports source t).foldl (fun o i => o.bindImport here.scope i) o
    | .call => walkAll here (recordCall source here t o) children
    | _ =>
      let names := (target? t).elim [] (targetNames source)
      walkAll here (o.bindAll here.scope names) children

/-- Adds the scopes, bindings and calls of several trees. -/
def walkAll (here : Place) (o : Outline) : List SyntaxTree → Outline
  | [] => o
  | t :: ts => walkAll here (walk here o t) ts

/-- Walks the body among the parts of a definition. -/
def walkBody (inner : Place) (o : Outline) : List SyntaxTree → Outline
  | [] => o
  | t :: parts => if t.role = some .body then walk inner o t else walkBody inner o parts

/-- Walks the base classes among the parts of a class. -/
def walkBases (here : Place) (o : Outline) : List SyntaxTree → Outline
  | [] => o
  | t :: parts => if t.role = some .superclasses then walk here o t else walkBases here o parts

/-- Finds the parameters among the parts of a function: walks their default values in the scope
around the function and binds their names inside it. -/
def walkDefaults (here inner : Place) (o : Outline) : List SyntaxTree → Outline
  | [] => o
  | .node _ role _ _ children :: parts =>
    if role = some .parameters then walkParameters here inner o children
    else walkDefaults here inner o parts

/-- Walks the default values of parameters and binds their names. -/
def walkParameters (here inner : Place) (o : Outline) : List SyntaxTree → Outline
  | [] => o
  | .node kind role start stop children :: ts =>
    let o := if hasDefaultValue kind then walkValue here o children else o
    let o := match parameterName? source (.node kind role start stop children) with
      | some name => o.bindParameter inner.scope name
      | none => o
    walkParameters here inner o ts

/-- Walks the value among the parts of a parameter. -/
def walkValue (here : Place) (o : Outline) : List SyntaxTree → Outline
  | [] => o
  | t :: parts => if t.role = some .value then walk here o t else walkValue here o parts

end

/-- The scopes and calls of a module's tree. -/
def ofTree (t : SyntaxTree) : Outline :=
  walk source {} {} t

end Outline

end CallFill
