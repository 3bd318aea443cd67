import CallFill.Source.Token
import CallFill.Text.Bytes

/-!
# Syntax trees

A tree has a kind, the stretch of text it covers, perhaps a role in its parent, and children in the
order of the text. Marks and keywords leave no tree; a joined line end is a tree of its own, in the
smallest tree around it.
-/

namespace CallFill.Source

/-- What a tree is. -/
inductive Kind where
  | module
  | block
  -- statements
  | importStatement
  | fromImport
  | futureImport
  | classDefinition
  | functionDefinition
  | decoratedDefinition
  | decorator
  | expressionStatement
  | typeAlias
  | ifStatement
  | tryStatement
  | withStatement
  | forStatement
  | matchStatement
  /-- A statement of any other form. -/
  | statement
  | elifClause
  | elseClause
  | exceptClause
  | exceptGroupClause
  | finallyClause
  | withClause
  | caseClause
  | casePattern
  /-- Tokens that form no statement. -/
  | error
  -- assignments and patterns
  | assignment
  | augmentedAssignment
  | patternList
  | tuplePattern
  | listPattern
  | listSplatPattern
  | dictionarySplatPattern
  | asPattern
  | asPatternTarget
  -- parameters
  | parameters
  | typedParameter
  | defaultParameter
  | typedDefaultParameter
  | keywordSeparator
  | positionalSeparator
  -- types
  | type
  | genericType
  | typeParameter
  | unionType
  | memberType
  | splatType
  | constrainedType
  -- expressions
  | identifier
  | integer
  | float
  | true
  | false
  | none
  | ellipsis
  | string
  | stringContent
  | interpolation
  | formatSpecifier
  | concatenatedString
  /-- A member of an object: `object.name`. -/
  | access
  | subscript
  | slice
  | call
  | argumentList
  | keywordArgument
  | listSplat
  | dictionarySplat
  | generatorExpression
  | parenthesized
  | tuple
  | list
  /-- A set, a dictionary or a comprehension between brackets or braces. -/
  | display
  | pair
  | forInClause
  | ifClause
  /-- The operator `|` between two operands. -/
  | alternation
  | binaryOperator
  | unaryOperator
  | comparison
  | booleanOperator
  | notOperator
  | conditional
  | lambda
  | namedExpression
  | expressionList
  | yield
  | await
  /-- A joined line end. -/
  | lineContinuation
  deriving DecidableEq, Repr

/-- What a tree is to its parent. -/
inductive Role where
  | name
  | left
  | right
  | type
  | value
  | function
  | arguments
  | object
  | member
  | subscript
  | argument
  | superclasses
  | parameters
  | body
  | definition
  | asName
  deriving DecidableEq, Repr

/-- A syntax tree. -/
inductive SyntaxTree where
  | node (kind : Kind) (role : Option Role) (start stop : Nat) (children : List SyntaxTree)
  deriving Repr

namespace SyntaxTree

/-- What the tree is. -/
def kind : SyntaxTree → Kind
  | node kind .. => kind

/-- What the tree is to its parent. -/
def role : SyntaxTree → Option Role
  | node _ role .. => role

/-- The byte offset where the tree starts. -/
def start : SyntaxTree → Nat
  | node _ _ start .. => start

/-- The byte offset where the tree ends. -/
def stop : SyntaxTree → Nat
  | node _ _ _ stop _ => stop

/-- The parts of the tree. -/
def children : SyntaxTree → List SyntaxTree
  | node _ _ _ _ children => children

/-- The tree in another role. -/
def withRole (r : Role) : SyntaxTree → SyntaxTree
  | node kind _ start stop children => node kind (some r) start stop children

/-- The first part in a role. -/
def child? (t : SyntaxTree) (r : Role) : Option SyntaxTree :=
  t.children.find? fun c => c.role = some r

/-- All parts in a role. -/
def childrenIn (t : SyntaxTree) (r : Role) : List SyntaxTree :=
  t.children.filter fun c => c.role = some r

/-- The text that the tree covers. -/
def chars (text : List Char) (t : SyntaxTree) : List Char :=
  Text.slice text t.start t.stop

/-- The text that the tree covers, as a string. -/
def text (source : List Char) (t : SyntaxTree) : String :=
  String.ofList (t.chars source)

end SyntaxTree

/-- What gives the syntax tree of a text. -/
abbrev TreeReader := List Char → SyntaxTree

namespace SyntaxTree

mutual

/-- Whether the tree holds tokens that form no statement. -/
def hasError : SyntaxTree → Bool
  | node kind _ _ _ children => kind = .error || anyError children

/-- Whether one of the trees holds tokens that form no statement. -/
def anyError : List SyntaxTree → Bool
  | [] => false
  | t :: ts => t.hasError || anyError ts

end

/-- A joined line end as a tree. -/
def joint (s : Span) : SyntaxTree :=
  node .lineContinuation none s.start s.stop []

mutual

/-- The tree with a joined line end in the smallest part around it. -/
def insertJoint (s : Span) : SyntaxTree → SyntaxTree
  | node kind role start stop children => node kind role start stop (insertJointAmong s children)

/-- The trees with a joined line end in the one around it, or between them. -/
def insertJointAmong (s : Span) : List SyntaxTree → List SyntaxTree
  | [] => [joint s]
  | t :: ts =>
    if s.stop ≤ t.start then joint s :: t :: ts
    else if s.stop ≤ t.stop then t.insertJoint s :: ts
    else t :: insertJointAmong s ts

end

end SyntaxTree

end CallFill.Source
