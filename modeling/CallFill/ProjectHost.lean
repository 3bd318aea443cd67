import CallFill.Host
import CallFill.Project

/-!
# A project as a host

What the engine asks about types, symbols, scopes and callees, answered from a project.
-/

namespace CallFill

/-- How a method is reached. -/
inductive Receiver where
  /-- Through an object, which is bound to the first parameter. -/
  | object
  /-- Through the class, which is bound only by class methods. -/
  | classItself
  deriving DecidableEq, Repr

namespace Project

variable (p : Project)

/-- The name of a symbol; unknown symbols have an empty one. -/
def symbolName (s : SymbolId) : String :=
  (p.symbols.get? s).elim "" Symbol.name

/-- What a class's type consists of. -/
def classShape (symbol : SymbolId) : TypeShape :=
  match p.classOfSymbol? symbol with
  | none => .plain symbol
  | some id =>
    if (p.recordOrigin id).isSome then .record symbol (p.recordFields id)
    else if p.derivesFromBuiltin id then .builtin (some symbol) (p.symbolName symbol)
    else .plain symbol

/-- What a type consists of. -/
def shape (t : TypeId) : TypeShape :=
  match p.types.node t with
  | .unknown => .unknown
  | .noneType => .noneType
  | .anyLike name => .anyLike name
  | .literal _ => .literal
  | .builtin symbol => .builtin (some symbol) (p.symbolName symbol)
  | .typeAlias symbol => .typeAlias (some symbol) (p.symbolName symbol)
  | .external symbol => .plain symbol
  | .union members => .union members
  | .collection kind _ elements => .collection kind elements
  | .projectClass symbol => p.classShape symbol

/-- The name of a type whose parts nest at most so deep. -/
def displayNameWithin : Nat → TypeId → String
  | 0, _ => "?"
  | n + 1, t =>
    match p.types.node t with
    | .unknown => "?"
    | .noneType => "None"
    | .anyLike name | .literal name => name
    | .builtin symbol | .projectClass symbol | .typeAlias symbol | .external symbol =>
      (p.symbols.get? symbol).elim "?" Symbol.qualifiedName
    | .union members => " | ".intercalate (members.map (displayNameWithin n))
    | .collection _ name [] => name
    | .collection _ name elements =>
      name ++ "[" ++ ", ".intercalate (elements.map (displayNameWithin n)) ++ "]"

/-- The name of a type. The parts of a type are entered before it, so their handles bound how deep
they nest. -/
def displayName (t : TypeId) : String :=
  p.displayNameWithin (t.index + 1) t

/-- Where a symbol comes from. -/
def provenance (symbol : SymbolId) : Option Bucket :=
  (p.symbols.get? symbol).map fun s =>
    match s.kind with
    | .builtin => .builtin
    | .classType | .typeAlias | .function | .variable => .own
    | .external =>
      if s.module = "builtins" || p.config.isStdlibModule s.module then .standardLibrary
      else .thirdParty

/-- The class of a type. -/
def classOf? (t : TypeId) : Option ClassId :=
  match p.types.node t with
  | .projectClass symbol => p.classOfSymbol? symbol
  | _ => none

/-- Whether the constructor of a type has a parameter that every call must give. -/
def needsArguments (t : TypeId) : Bool :=
  match (p.classOf? t).bind p.constructorParameters with
  | some parameters => parameters.any fun q => !q.hasDefault && !q.isVariadic
  | none => false

/-- What follows a module's name and a dot in a qualified name. -/
def below? (module qualifiedName : String) : Option String :=
  let before := (module ++ ".").toList
  if before.isPrefixOf qualifiedName.toList then
    some (String.ofList (qualifiedName.toList.drop before.length))
  else none

/-- The name that a member import of a file binds to a symbol. -/
def aliasByMember? (file : FileId) (m : SourceModule) (s : Symbol) : Option String :=
  (m.definitions.imports.filter fun i => i.name.isSome).findSome? fun i =>
    match p.resolve file i.boundName with
    | some e => if p.qualifiedName e = s.qualifiedName then some i.boundName else none
    | none => none

/-- The expression that reaches a symbol through a module import of a file. -/
def aliasByModule? (m : SourceModule) (s : Symbol) : Option String :=
  (m.definitions.imports.filter fun i => i.name.isNone).findSome? fun i =>
    ((ModuleName.absolute m.name m.isPackage i.module).bind fun module =>
      below? module s.qualifiedName).map fun rest =>
        match i.asName with
        | some name => Dotted.below name rest
        | none => s.qualifiedName

/-- The expression by which a file already names a symbol through an import. -/
def visibleAlias? (file : FileId) (symbol : SymbolId) : Option String :=
  match p.symbols.get? symbol, p.file? file with
  | some s, some m => p.aliasByMember? file m s <|> aliasByModule? m s
  | _, _ => none

/-- The class a dotted name means in a file. -/
def resolveClass? (file : FileId) (name : String) : Option ClassId :=
  match p.resolve file name with
  | some (.classDef id) => some id
  | _ => none

/-- The signature of a class's constructor. -/
def constructorSignature? (id : ClassId) : Option Signature :=
  (p.class? id).map fun c => {
    name := Dotted.last c.definition.name
    parameters := (p.constructorParameters id).getD []
    record := (p.recordOrigin id).map fun _ => c.symbol }

/-- The signature of a method reached through a class or an object of it. -/
def methodSignature? (id : ClassId) (name : String) (receiver : Receiver) : Option Signature :=
  (p.method? id name).map fun m => {
    name
    parameters := parametersOf m
      (receiver = .object || hasDecorator m.definition.decorators "classmethod") }

/-- The signature of a function. -/
def functionSignature? (id : FunctionId) : Option Signature :=
  (p.typedFunctions[id.index]?).map fun f => {
    name := f.definition.name
    parameters := parametersOf f false }

/-- Letters, digits and underscores. -/
def isNameChar (c : Char) : Bool :=
  c.isAlphanum || c == '_'

/-- Whether a name may start with the character. -/
def isNameStart (c : Char) : Bool :=
  c.isAlpha || c == '_'

/-- The class and the method in a text that ends by calling a method of what it constructs:
`Name(...).method`. Nothing is asked of the text between the first opening parenthesis and the last
closing one. -/
def constructedMethod? (text : List Char) : Option (String × String) :=
  let head := text.takeWhile fun c => isNameChar c || c == '.'
  match head.head?, Text.trimStart (text.drop head.length) with
  | some first, '(' :: rest =>
    let method := (rest.reverse.takeWhile isNameChar).reverse
    match method.head?, Text.trimStart (rest.reverse.drop method.length) with
    | some initial, '.' :: before =>
      match Text.trimStart before with
      | ')' :: _ =>
        if isNameStart first && isNameStart initial then
          some (String.ofList head, String.ofList method)
        else none
      | _ => none
    | _, _ => none
  | _, _ => none

/-- The receiver that a name for the enclosing class's object, or for the class, stands for. -/
def receiverOf? (head : String) : Option Receiver :=
  if head = "self" then some .object
  else if head = "cls" then some .classItself
  else none

/-- The signature of a method of the class around a call. -/
def enclosingMethod? (call : CallSite) (name : String) (receiver : Receiver) : Option Signature :=
  ((p.call? call.id).bind CallRecord.enclosingClass).bind fun path =>
    (p.classAtPath? call.file path).bind fun id => p.methodSignature? id name receiver

/-- The signature of what a text names from the scope of a call: a class, a function, or a method
reached through its class. -/
def namedCallee? (call : CallSite) (text : String) : Option Signature :=
  match p.resolveFrom call.scope text with
  | some (.classDef id) => p.constructorSignature? id
  | some (.function id) => p.functionSignature? id
  | some _ => none
  | none =>
    (Dotted.splitLast? text).bind fun (head, name) =>
      (p.resolveClass? call.file head).bind fun id => p.methodSignature? id name .classItself

/-- The signature of what a call calls. -/
def callee? (call : CallSite) : Option Signature :=
  let text := Text.trimmed call.callee
  match constructedMethod? text.toList with
  | some (name, method) =>
    (p.resolveClass? call.file name).bind fun id => p.methodSignature? id method .object
  | none =>
    match (Dotted.splitLast? text).bind fun (head, name) =>
        (receiverOf? head).map fun receiver => (name, receiver) with
    | some (name, receiver) => p.enclosingMethod? call name receiver
    | none => p.namedCallee? call text

/-- The project as the engine sees it. -/
def host : Host where
  shape := p.shape
  displayName := p.displayName
  symbolOf t := (p.types.node t).symbol?
  symbol := p.symbols.get?
  provenance := p.provenance
  needsArguments := p.needsArguments
  lookup name scope := (p.lookup? name scope).map fun found => { name, kind := found.2 }
  visibleAlias := p.visibleAlias?
  callee := p.callee?

end Project

end CallFill
