import CallFill.Text.Blank
import CallFill.Text.Dotted

/-!
# Import statements

An import statement binds names to modules or to members of modules. It is read from its words:
parentheses and backslashes only lay it out, and commas part the imported names. A name that is not
of the expected form binds nothing.
-/

namespace CallFill

/-- One name bound by an import statement. -/
structure Import where
  /-- The module as written; a relative one keeps its leading dots. -/
  module : String
  /-- The member imported from the module; none where the module itself is imported. -/
  name : Option String := none
  /-- The name after `as`. -/
  asName : Option String := none
  line : Nat := 0
  deriving DecidableEq, Repr

namespace Import

/-- The name the import binds. -/
def boundName (i : Import) : String :=
  match i.asName, i.name with
  | some name, _ => name
  | none, some name => name
  | none, none => Dotted.first i.module

/-- Letters, digits, underscores and dots. -/
def isPathChar (c : Char) : Bool :=
  c.isAlphanum || c == '_' || c == '.'

/-- Whether the word is a dotted path. -/
def isPath (word : List Char) : Bool :=
  !word.isEmpty && word.all isPathChar

/-- Whether the word is an identifier. -/
def isIdentifier : List Char → Bool
  | c :: cs => (c.isAlpha || c == '_') && cs.all fun c => c.isAlphanum || c == '_'
  | [] => false

/-- A name and its alias, from the words between two commas. -/
def item? : List (List Char) → Option (String × Option String)
  | [name] => if isPath name then some (String.ofList name, none) else none
  | [name, ['a', 's'], asName] =>
    if isPath name && isIdentifier asName then
      some (String.ofList name, some (String.ofList asName))
    else none
  | _ => none

/-- The names in a list parted by commas. -/
def items (list : List Char) : List (String × Option String) :=
  (Text.pieces (· == ',') list).filterMap fun piece => item? (Text.words piece)

/-- The text with blanks for the characters that only lay it out. -/
def withoutLayout (text : List Char) : List Char :=
  text.map fun c => if c == '(' || c == ')' || c == '\\' then ' ' else c

/-- The names an import statement binds; none if the text is no import statement. -/
def ofStatement (text : String) (line : Nat) : List Import :=
  match Text.words (withoutLayout text.toList) with
  | ['f', 'r', 'o', 'm'] :: module :: ['i', 'm', 'p', 'o', 'r', 't'] :: list =>
    if isPath module then
      (items ([' '].intercalate list)).map fun (name, asName) =>
        { module := String.ofList module, name := some name, asName, line }
    else []
  | ['i', 'm', 'p', 'o', 'r', 't'] :: list =>
    (items ([' '].intercalate list)).map fun (module, asName) => { module, asName, line }
  | _ => []

end Import

end CallFill
