import CallFill.ModuleName
import CallFill.Scope
import CallFill.Source.Rules

/-!
# Modules of source text

All that the library reads from one file: what it defines, its scopes and calls, and the place of
new import lines. `SourceModule.ofTree` reads it from any syntax tree of the text, `ofText` from the
tree that a reader gives, which is the one of the grammar unless another is named.
-/

namespace CallFill

open Source

/-- A file that has been read. -/
structure SourceModule where
  path : String
  /-- The dotted name of the module. -/
  name : String
  isPackage : Bool
  text : String
  definitions : Definitions
  outline : Outline
  /-- Where a new import line goes. -/
  importOffset : Nat

namespace SourceModule

/-- Reads a module from a syntax tree of its text. -/
def ofTree (path text : String) (tree : SyntaxTree) : SourceModule :=
  let source := text.toList
  { path
    name := (ModuleName.ofPath path).1
    isPackage := (ModuleName.ofPath path).2
    text
    definitions := Definition.ofStatements source tree.children
    outline := Outline.ofTree source tree
    importOffset := Definition.importOffset tree.children }

/-- Reads a module from its text. -/
def ofText (path text : String) (read : TreeReader := parse) : SourceModule :=
  ofTree path text (read text.toList)

variable (path text : String) (read : TreeReader)

@[simp] theorem path_ofText : (ofText path text read).path = path := rfl

@[simp] theorem text_ofText : (ofText path text read).text = text := rfl

end SourceModule

end CallFill
