import CallFill.ImportStatement
import CallFill.TypeExpr

/-!
# Definitions

What a module offers to others: its classes with their fields and methods, its functions, the names
assigned at its top level, and its imports. Statements below `if`, `try` and `with` count as the
module's own; those in loops do not. A class is listed before the classes nested in it, which carry
its name before theirs.
-/

namespace CallFill

open Source

/-- How arguments reach a parameter. -/
inductive ParameterKind where
  | positionalOnly
  | ordinary
  | keywordOnly
  | varPositional
  | varKeyword
  deriving DecidableEq, Repr

/-- The name of a parameter kind in reports. -/
def ParameterKind.name : ParameterKind → String
  | .positionalOnly => "positional_only"
  | .ordinary => "positional_or_keyword"
  | .keywordOnly => "keyword_only"
  | .varPositional => "var_positional"
  | .varKeyword => "var_keyword"

/-- A parameter as it is declared. -/
structure ParameterDef where
  name : String
  typeText : Option String := none
  defaultText : Option String := none
  kind : ParameterKind
  deriving DecidableEq, Repr

/-- A function or method as it is declared. -/
structure FunctionDef where
  name : String
  parameters : List ParameterDef
  /-- What the decorators are, without their arguments. -/
  decorators : List String
  deriving DecidableEq, Repr

/-- Whether one of some decorators has this short name. -/
def hasDecorator (decorators : List String) (short : String) : Bool :=
  decorators.any fun d => Dotted.last d = short

/-- A class attribute with a declared type. -/
structure FieldDef where
  name : String
  typeText : String
  defaultText : Option String := none
  /-- The keyword the constructor takes for the field, where it is another. -/
  keyword : Option String := none
  isKeywordOnly : Bool
  /-- Whether the constructor takes the field at all. -/
  isInit : Bool := true
  deriving DecidableEq, Repr

/-- A class as it is declared. -/
structure ClassDef where
  /-- The dotted path of the class in its module. -/
  name : String
  bases : List String
  /-- The keywords beside the bases. -/
  keywords : List (String × String)
  decorators : List String
  fields : List FieldDef
  methods : List FunctionDef
  deriving DecidableEq, Repr

namespace ClassDef

/-- The first method with a name. -/
def method? (c : ClassDef) (name : String) : Option FunctionDef :=
  c.methods.find? fun m => m.name = name

/-- The first value of a keyword beside the bases. -/
def keyword? (c : ClassDef) (name : String) : Option String :=
  (c.keywords.find? fun k => k.1 = name).map (·.2)

end ClassDef

/-- What is assigned to a name. -/
inductive AssignedValue where
  /-- A new type around the target. -/
  | newType (target : String)
  | expression (text : String)
  /-- Nothing: the name is only declared. -/
  | missing
  deriving DecidableEq, Repr

/-- A name assigned at the top level. -/
structure AssignmentDef where
  name : String
  typeText : Option String := none
  value : AssignedValue
  deriving DecidableEq, Repr

/-- What a module offers. -/
structure Definitions where
  classes : List ClassDef := []
  functions : List FunctionDef := []
  assignments : List AssignmentDef := []
  imports : List Import := []

/-- The definitions of two stretches of statements. -/
def Definitions.append (a b : Definitions) : Definitions where
  classes := a.classes ++ b.classes
  functions := a.functions ++ b.functions
  assignments := a.assignments ++ b.assignments
  imports := a.imports ++ b.imports

namespace Definition

variable (source : List Char)

/-- The keyword arguments among some arguments, with the texts of their values. -/
def keywordArguments (arguments : List SyntaxTree) : List (String × String) :=
  arguments.filterMap fun a =>
    if a.kind = .keywordArgument then
      match a.child? .name, a.child? .value with
      | some name, some value => some (name.text source, value.text source)
      | _, _ => none
    else none

/-- Whether an argument is given by position. -/
def isPositional (a : SyntaxTree) : Bool :=
  a.kind != .keywordArgument && a.kind != .listSplat && a.kind != .dictionarySplat

/-- What a decorator is, and the arguments it is called with. -/
def decorator (t : SyntaxTree) : String × List SyntaxTree :=
  match t.children with
  | [] => ("", [])
  | e :: _ =>
    if e.kind = .call then
      ((e.child? .function).elim "" (SyntaxTree.text source),
        (e.child? .arguments).elim [] SyntaxTree.children)
    else (e.text source, [])

/-- The decorators of a decorated definition. -/
def decorators (t : SyntaxTree) : List (String × List SyntaxTree) :=
  (t.children.filter fun c => c.kind = .decorator).map (decorator source)

/-- Whether a decorator makes all fields of its class keyword-only. -/
def decoratesKeywordOnly (ds : List (String × List SyntaxTree)) : Bool :=
  ds.any fun d => (keywordArguments source d.2).contains ("kw_only", "True")

/-- The name behind the stars of a parameter. -/
def starredName (t : SyntaxTree) : String :=
  t.children.head?.elim "" (SyntaxTree.text source)

/-- The kind of a parameter without stars. -/
def plainKind (keywordOnly : Bool) : ParameterKind :=
  if keywordOnly then .keywordOnly else .ordinary

/-- The parameters of a function, in order. After a star all parameters are keyword-only, and a
slash makes those before it positional-only. -/
def parametersFrom (keywordOnly : Bool) (acc : List ParameterDef) :
    List SyntaxTree → List ParameterDef
  | [] => acc
  | t :: ts =>
    let kind := plainKind keywordOnly
    match t.kind with
    | .identifier =>
      parametersFrom keywordOnly (acc ++ [{ name := t.text source, kind }]) ts
    | .typedParameter =>
      let typeText := (t.child? .type).map (SyntaxTree.text source)
      match t.children.head? with
      | none => parametersFrom keywordOnly acc ts
      | some inner =>
        match inner.kind with
        | .listSplatPattern =>
          parametersFrom true
            (acc ++ [{ name := starredName source inner, typeText, kind := .varPositional }]) ts
        | .dictionarySplatPattern =>
          parametersFrom keywordOnly
            (acc ++ [{ name := starredName source inner, typeText, kind := .varKeyword }]) ts
        | _ =>
          parametersFrom keywordOnly (acc ++ [{ name := inner.text source, typeText, kind }]) ts
    | .defaultParameter | .typedDefaultParameter =>
      match t.child? .name with
      | none => parametersFrom keywordOnly acc ts
      | some name =>
        parametersFrom keywordOnly (acc ++ [{
          name := name.text source
          typeText := (t.child? .type).map (SyntaxTree.text source)
          defaultText := (t.child? .value).map (SyntaxTree.text source)
          kind }]) ts
    | .listSplatPattern =>
      parametersFrom true (acc ++ [{ name := starredName source t, kind := .varPositional }]) ts
    | .dictionarySplatPattern =>
      parametersFrom keywordOnly
        (acc ++ [{ name := starredName source t, kind := .varKeyword }]) ts
    | .keywordSeparator => parametersFrom true acc ts
    | .positionalSeparator =>
      parametersFrom keywordOnly
        (acc.map fun p => { p with kind := .positionalOnly }) ts
    | _ => parametersFrom keywordOnly acc ts

/-- A function with its decorators. -/
def function (decorators : List String) (t : SyntaxTree) : FunctionDef where
  name := (t.child? .name).elim "" (SyntaxTree.text source)
  parameters := (t.child? .parameters).elim [] fun p => parametersFrom source false [] p.children
  decorators := decorators

/-- The calls that describe a field rather than give its default. -/
def fieldFactories : List String := ["field", "Field", "ib", "attrib"]

/-- The contents of a string literal's text: without the letters before it and all quotes at both
ends. -/
def unquoted (text : String) : String :=
  let isQuote (c : Char) : Bool := c == '"' || c == '\''
  let inner := (text.toList.dropWhile Char.isAlpha).dropWhile isQuote
  String.ofList (inner.reverse.dropWhile isQuote).reverse

/-- A field with what one argument of its description says. -/
def describeField (f : FieldDef) (argument : String × String) : FieldDef :=
  let (key, value) := argument
  if key = "default" ∨ key = "default_factory" ∨ key = "factory" then
    { f with defaultText := some value }
  else if key = "alias" then { f with keyword := some (unquoted value) }
  else if key = "kw_only" then { f with isKeywordOnly := value = "True" }
  else if key = "init" then { f with isInit := value != "False" }
  else f

/-- A field with the value it is assigned: its default, or a call that describes the field. -/
def fieldWithValue (f : FieldDef) (value : SyntaxTree) : FieldDef :=
  let asDefault := { f with defaultText := some (value.text source) }
  if value.kind = .call then
    match value.child? .function, value.child? .arguments with
    | some callee, some arguments =>
      if fieldFactories.contains (Dotted.last (callee.text source)) then
        let f := (keywordArguments source arguments.children).foldl describeField f
        match f.defaultText, arguments.children.find? isPositional with
        | none, some first =>
          if first.text source = "..." then f
          else { f with defaultText := some (first.text source) }
        | _, _ => f
      else asDefault
    | _, _ => asDefault
  else asDefault

/-- What an assignment in a class body declares. -/
inductive FieldReading where
  | field (f : FieldDef)
  /-- All fields that follow are keyword-only. -/
  | keywordOnlyMark
  | nothing

/-- Reads an assignment in a class body. -/
def readField (keywordOnly : Bool) (t : SyntaxTree) : FieldReading :=
  if t.kind = .assignment then
    match t.child? .left, t.child? .type with
    | some left, some type =>
      if left.kind = .identifier then
        match (TypeExpr.ofTree source type).head? with
        | some "KW_ONLY" => .keywordOnlyMark
        | some "ClassVar" => .nothing
        | _ =>
          let f : FieldDef := {
            name := left.text source, typeText := type.text source, isKeywordOnly := keywordOnly }
          match t.child? .right with
          | some value => .field (fieldWithValue source f value)
          | none => .field f
      else .nothing
    | _, _ => .nothing
  else .nothing

/-- The fields that the assignments of a class body declare, in order. -/
def fieldsFrom (keywordOnly : Bool) : List SyntaxTree → List FieldDef
  | [] => []
  | t :: ts =>
    match readField source keywordOnly t with
    | .field f => f :: fieldsFrom keywordOnly ts
    | .keywordOnlyMark => fieldsFrom true ts
    | .nothing => fieldsFrom keywordOnly ts

/-- The expressions and assignments that are statements of a block. -/
def expressionsIn (statements : List SyntaxTree) : List SyntaxTree :=
  (statements.filter fun s => s.kind = .expressionStatement).flatMap SyntaxTree.children

/-- The method that a statement of a class body declares. -/
def method? (statement : SyntaxTree) : Option FunctionDef :=
  match statement.kind with
  | .functionDefinition => some (function source [] statement)
  | .decoratedDefinition =>
    match statement.child? .definition with
    | some d =>
      if d.kind = .functionDefinition then
        some (function source ((decorators source statement).map (·.1)) d)
      else none
    | none => none
  | _ => none

/-- A class by itself, without those nested in it. -/
def ownClass (name : String) (decorators : List String) (t : SyntaxTree) : ClassDef :=
  let arguments := (t.child? .superclasses).elim [] SyntaxTree.children
  let statements := (t.child? .body).elim [] SyntaxTree.children
  { name
    bases := (arguments.filter isPositional).map (SyntaxTree.text source)
    keywords := keywordArguments source arguments
    decorators
    fields := fieldsFrom source false (expressionsIn statements)
    methods := statements.filterMap (method? source) }

mutual

/-- A class and the classes nested in it; `outer` is the path of the class around it. -/
def classes (outer : String) (decorators : List String) : SyntaxTree → List ClassDef
  | .node kind role start stop children =>
    let t := SyntaxTree.node kind role start stop children
    match t.child? .name with
    | none => []
    | some n =>
      let name := if outer = "" then n.text source else Dotted.below outer (n.text source)
      ownClass source name decorators t :: classesInBody name children

/-- The classes in the body among the parts of a class. -/
def classesInBody (outer : String) : List SyntaxTree → List ClassDef
  | [] => []
  | .node _ role _ _ children :: parts =>
    if role = some .body then classesAmong outer children else classesInBody outer parts

/-- The classes that statements of a class body define. -/
def classesAmong (outer : String) : List SyntaxTree → List ClassDef
  | [] => []
  | .node kind role start stop children :: statements =>
    let t := SyntaxTree.node kind role start stop children
    (match kind with
      | .classDefinition => classes outer [] t
      | .decoratedDefinition =>
        classesDecorated outer ((decorators source t).map (·.1)) children
      | _ => []) ++ classesAmong outer statements

/-- The class among the parts of a decorated definition. -/
def classesDecorated (outer : String) (decorators : List String) : List SyntaxTree → List ClassDef
  | [] => []
  | t :: parts =>
    if t.role = some .definition then
      if t.kind = .classDefinition then classes outer decorators t else []
    else classesDecorated outer decorators parts

end

/-- Makes all fields of the first class keyword-only. -/
def firstKeywordOnly : List ClassDef → List ClassDef
  | [] => []
  | c :: cs => { c with fields := c.fields.map fun f => { f with isKeywordOnly := true } } :: cs

/-- What a decorated definition at the top level defines. -/
def decoratedDefinitions (t : SyntaxTree) : Definitions :=
  match t.child? .definition with
  | none => {}
  | some d =>
    let ds := decorators source t
    let names := ds.map (·.1)
    match d.kind with
    | .classDefinition =>
      let cs := classes source "" names d
      { classes := if decoratesKeywordOnly source ds then firstKeywordOnly cs else cs }
    | .functionDefinition => { functions := [function source names d] }
    | _ => {}

/-- What the right side of an assignment gives the name. -/
def assignedValue (right : SyntaxTree) : AssignedValue :=
  let asExpression := AssignedValue.expression (right.text source)
  if right.kind = .call &&
      Dotted.last ((right.child? .function).elim "" (SyntaxTree.text source)) = "NewType" then
    match ((right.child? .arguments).elim [] SyntaxTree.children).filter isPositional with
    | _ :: target :: _ => .newType (target.text source)
    | _ => asExpression
  else asExpression

/-- The name that an assignment at the top level defines. -/
def assignment? (t : SyntaxTree) : Option AssignmentDef :=
  if t.kind = .assignment then
    match t.child? .left with
    | some left =>
      if left.kind = .identifier then
        some {
          name := left.text source
          typeText := (t.child? .type).map (SyntaxTree.text source)
          value := (t.child? .right).elim .missing (assignedValue source) }
      else none
    | none => none
  else none

/-- The name that a type alias defines. -/
def typeAlias? (t : SyntaxTree) : Option AssignmentDef :=
  match t.child? .left, t.child? .right with
  | some left, some right =>
    some {
      name := left.text source
      typeText := some "TypeAlias"
      value := .expression (right.text source) }
  | _, _ => none

/-- The number of the line on which a tree starts, counted from one. -/
def line (t : SyntaxTree) : Nat :=
  (Text.slice source 0 t.start).count '\n' + 1

/-- Whether a tree is an import statement. -/
def isImport (t : SyntaxTree) : Bool :=
  t.kind = .importStatement || t.kind = .fromImport || t.kind = .futureImport

/-- The names an import statement in the tree binds. -/
def imports (t : SyntaxTree) : List Import :=
  Import.ofStatement (t.text source) (line source t)

/-- Whether statements below a statement of this kind count as the module's own. -/
def isTransparent (k : Kind) : Bool :=
  k = .ifStatement || k = .tryStatement || k = .withStatement

/-- Whether a part of a statement holds a block of its own. -/
def isClause (k : Kind) : Bool :=
  k = .elifClause || k = .elseClause || k = .exceptClause || k = .exceptGroupClause ||
    k = .finallyClause || k = .withClause || k = .caseClause || k = .ifClause ||
    k = .forInClause

mutual

/-- What a statement of the module defines. -/
def ofStatement : SyntaxTree → Definitions
  | .node kind role start stop children =>
    let t := SyntaxTree.node kind role start stop children
    if isImport t then { imports := imports source t }
    else if isTransparent kind then ofParts children
    else
      match kind with
      | .classDefinition => { classes := classes source "" [] t }
      | .functionDefinition => { functions := [function source [] t] }
      | .decoratedDefinition => decoratedDefinitions source t
      | .expressionStatement => { assignments := children.filterMap (assignment? source) }
      | .typeAlias => { assignments := (typeAlias? source t).toList }
      | _ => {}

/-- What statements of the module define. -/
def ofStatements : List SyntaxTree → Definitions
  | [] => {}
  | t :: ts => (ofStatement t).append (ofStatements ts)

/-- What the blocks among the parts of a statement define. -/
def ofParts : List SyntaxTree → Definitions
  | [] => {}
  | .node kind _ _ _ children :: parts =>
    (if kind = .block then ofStatements children
      else if isClause kind then ofParts children
      else {}).append (ofParts parts)

end

/-- Where the last import statement of the top level ends. -/
def lastImportEnd? (statements : List SyntaxTree) : Option Nat :=
  (statements.filter isImport).getLast?.map SyntaxTree.stop

/-- Where the module's docstring ends, or the start of the text. -/
def docstringEnd (statements : List SyntaxTree) : Nat :=
  match statements with
  | first :: _ =>
    if first.kind = .expressionStatement && first.children.head?.any (·.kind = .string) then
      first.stop
    else 0
  | [] => 0

/-- Where a new import line goes: after the last import of the top level, or after the docstring. -/
def importOffset (statements : List SyntaxTree) : Nat :=
  (lastImportEnd? statements).getD (docstringEnd statements)

end Definition

end CallFill
