import CallFill.Source.Rules
import CallFill.Text.Blank
import CallFill.Text.Dotted

/-!
# Type expressions

An annotation is read as the expression of a type: names, subscripts, unions, and the literals that
may stand in them. What does not denote a type keeps its text. Annotations come from the tree of a
source file, or from a text of their own, which must be exactly one expression in the tree that a
reader gives of it.
-/

namespace CallFill

open Source

/-- The expression of a type. -/
inductive TypeExpr where
  /-- A name, perhaps dotted. -/
  | name (name : String)
  | subscript (base : String) (args : List TypeExpr)
  | union (items : List TypeExpr)
  | none
  | ellipsis
  /-- The contents of a string. -/
  | string (text : String)
  | number (text : String)
  /-- Items between brackets or parentheses. -/
  | list (items : List TypeExpr)
  /-- An expression that denotes no type. -/
  | other (text : String)
  /-- A text that is not one expression. -/
  | invalid (text : String)
  deriving Repr

namespace TypeExpr

/-- The last segment of a name or of what is subscripted. -/
def head? : TypeExpr → Option String
  | name n => some (Dotted.last n)
  | subscript base _ => some (Dotted.last base)
  | _ => Option.none

mutual

/-- How an annotation is written. -/
def render : TypeExpr → String
  | name n => n
  | subscript base args => base ++ "[" ++ ", ".intercalate (renderAll args) ++ "]"
  | union items => " | ".intercalate (renderAll items)
  | none => "None"
  | ellipsis => "..."
  | string text => "'" ++ text ++ "'"
  | number text | other text | invalid text => text
  | list items => "[" ++ ", ".intercalate (renderAll items) ++ "]"

/-- How annotations are written. -/
def renderAll : List TypeExpr → List String
  | [] => []
  | a :: as => a.render :: renderAll as

end

/-- Whether the expression is an ellipsis. -/
def isEllipsis : TypeExpr → Bool
  | ellipsis => true
  | _ => false

mutual

/-- Whether two expressions are the same. -/
def same : TypeExpr → TypeExpr → Bool
  | name a, name b | string a, string b | number a, number b | other a, other b
  | invalid a, invalid b => a == b
  | subscript base as, subscript base' bs => base == base' && sameAll as bs
  | union as, union bs | list as, list bs => sameAll as bs
  | none, none | ellipsis, ellipsis => true
  | _, _ => false

/-- Whether two lists of expressions are the same. -/
def sameAll : List TypeExpr → List TypeExpr → Bool
  | [], [] => true
  | a :: as, b :: bs => a.same b && sameAll as bs
  | _, _ => false

end

mutual

theorem same_iff : ∀ a b : TypeExpr, a.same b = true ↔ a = b
  | subscript _ as, b => by cases b <;> simp [same, sameAll_iff as]
  | union as, b | list as, b => by cases b <;> simp [same, sameAll_iff as]
  | name _, b | string _, b | number _, b | other _, b | invalid _, b => by cases b <;> simp [same]
  | none, b | ellipsis, b => by cases b <;> simp [same]

theorem sameAll_iff : ∀ as bs : List TypeExpr, sameAll as bs = true ↔ as = bs
  | [], bs => by cases bs <;> simp [sameAll]
  | a :: as, bs => by cases bs <;> simp [sameAll, same_iff a, sameAll_iff as]

end

instance : DecidableEq TypeExpr :=
  fun a b => decidable_of_iff _ (same_iff a b)

/-- The members of a union, or the annotation alone. -/
def members : TypeExpr → List TypeExpr
  | union items => items
  | a => [a]

mutual

/-- The dotted name that identifiers and member accesses spell. -/
def dottedName? (source : List Char) : SyntaxTree → Option String
  | .node kind role start stop children =>
    match kind with
    | .identifier => some (String.ofList (Text.slice source start stop))
    | .access =>
      match objectName? source children,
          (SyntaxTree.node kind role start stop children).child? .member with
      | some object, some last => some (Dotted.below object (last.text source))
      | _, _ => Option.none
    | _ => Option.none

/-- The dotted name of the object among the parts of a member access. -/
def objectName? (source : List Char) : List SyntaxTree → Option String
  | [] => Option.none
  | t :: ts => if t.role = some .object then dottedName? source t else objectName? source ts

end

/-- The contents of a string, between its quotes and without the holes. -/
def stringContents (source : List Char) (t : SyntaxTree) : String :=
  "".intercalate ((t.children.filter fun c => c.kind = .stringContent).map (SyntaxTree.text source))

/-- Whether a tree is a number. -/
def isNumber (t : SyntaxTree) : Bool :=
  t.kind = .integer || t.kind = .float

mutual

/-- The annotation that a tree of an expression, or of a type, denotes. -/
def ofTree (source : List Char) : SyntaxTree → TypeExpr
  | .node kind role start stop children =>
    let t := SyntaxTree.node kind role start stop children
    let text := String.ofList (Text.slice source start stop)
    match kind with
    | .type | .parenthesized =>
      match ofTrees source children with
      | [inner] => inner
      | _ => other text
    | .none => none
    | .ellipsis => ellipsis
    | .identifier | .access =>
      match dottedName? source t with
      | some n => name n
      | Option.none => other text
    | .subscript =>
      match (t.child? .value).bind (dottedName? source) with
      | some base => subscript base (ofTreesIn source .subscript children)
      | Option.none => other text
    | .genericType =>
      match children with
      | [base, .node .typeParameter _ _ _ args] =>
        subscript (base.text source) (ofTrees source args)
      | _ => other text
    | .memberType =>
      match ofTrees source children, children with
      | [name object, _], [_, last] => name (Dotted.below object (last.text source))
      | _, _ => other text
    | .unionType => union ((ofTrees source children).flatMap members)
    | .alternation =>
      union ((ofTreesIn source .left children).flatMap members ++
        (ofTreesIn source .right children).flatMap members)
    | .string => string (stringContents source t)
    | .concatenatedString => string ("".intercalate (children.map (stringContents source)))
    | .integer | .float => number text
    | .unaryOperator =>
      if (t.child? .argument).any isNumber then number text else other text
    | .true | .false => name text
    | .list | .tuple => list (ofTrees source children)
    | _ => other text

/-- The annotations that trees denote. -/
def ofTrees (source : List Char) : List SyntaxTree → List TypeExpr
  | [] => []
  | t :: ts => ofTree source t :: ofTrees source ts

/-- The annotations that the trees in a role denote. -/
def ofTreesIn (source : List Char) (r : Role) : List SyntaxTree → List TypeExpr
  | [] => []
  | t :: ts =>
    if t.role = some r then ofTree source t :: ofTreesIn source r ts else ofTreesIn source r ts

end

/-- Whether a tree assigns. -/
def isAssignment (t : SyntaxTree) : Bool :=
  t.kind = .assignment || t.kind = .augmentedAssignment

/-- The one expression that a text consists of. -/
def expression? (root : SyntaxTree) : Option SyntaxTree :=
  if root.hasError then Option.none
  else
    match root.children with
    | [.node .expressionStatement _ _ _ [e]] => if isAssignment e then Option.none else some e
    | _ => Option.none

/-- The annotation in a text of its own. -/
def parse (text : String) (read : TreeReader := Source.parse) : TypeExpr :=
  let source := Text.trim text.toList
  match expression? (read source) with
  | some e => ofTree source e
  | Option.none => invalid (String.ofList source)

end TypeExpr

end CallFill
