import CallFill.Proofs.Scope.Blocks

/-!
# The path of the class around a place

The class that a place stands in is the innermost one among the blocks around it. Its path is its
name, below the path of the class around it if that is the block around it. In the body of a
function, as in the module, a class begins a path of its own (`Outline.classPath`).
-/

namespace CallFill.Outline

open Source SyntaxTree

section ClassPath

variable (source : List Char)

/-- The name of a class. -/
def className (t : SyntaxTree) : String :=
  (t.child? .name).elim "" (SyntaxTree.text source)

/-- The path of the innermost class among some blocks. A class carries the path of another before
its name only where it stands right in the body of that one. -/
def classPath : List SyntaxTree → Option String
  | [] => none
  | b :: outer =>
    if b.kind = .classDefinition then
      match classPath outer, (bodies outer).head?.map kind with
      | some path, some .classDefinition => some (Dotted.below path (className source b))
      | _, _ => some (className source b)
    else classPath outer

end ClassPath

variable {source : List Char} {b : SyntaxTree} {outer : List SyntaxTree}

theorem classPath_cons_of_ne (hb : b.kind ≠ .classDefinition) (outer : List SyntaxTree) :
    classPath source (b :: outer) = classPath source outer :=
  if_neg hb

theorem classPath_cons_of_class (hb : b.kind = .classDefinition)
    (houter : (bodies outer).head?.map kind = some .classDefinition) {path : String}
    (hpath : classPath source outer = some path) :
    classPath source (b :: outer) = some (Dotted.below path (className source b)) := by
  rw [classPath, if_pos hb, hpath, houter]

/-- In the body of a function, or of the module, a class begins a path of its own. -/
theorem classPath_cons_of_other (hb : b.kind = .classDefinition)
    (houter : (bodies outer).head?.map kind ≠ some .classDefinition) :
    classPath source (b :: outer) = some (className source b) := by
  rw [classPath, if_pos hb]
  split
  · next h => exact absurd h houter
  · rfl

/-- Blocks inside expressions are no classes. -/
theorem classPath_bodies (blocks : List SyntaxTree) :
    classPath source (bodies blocks) = classPath source blocks := by
  induction blocks with
  | nil => rfl
  | cons b outer ih =>
      by_cases hinline : b.isInline = true
      · have hclass : b.kind ≠ .classDefinition :=
          fun hclass => isInline_definition (Or.inr hclass) hinline
        rw [classPath_cons_of_ne hclass, bodies, List.dropWhile_cons_of_pos hinline]
        exact ih
      · rw [bodies, List.dropWhile_cons_of_neg hinline]

end CallFill.Outline
