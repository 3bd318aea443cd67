import CallFill.Error
import CallFill.Text.Bytes

/-!
# Edits of a text

An edit puts a text in the place of the characters between two byte offsets. Several edits are made
from the last to the first, so that each finds its offsets where they were in the text before. An
edit that does not lie in the text, or cuts a character, is rejected, and with it all others.
-/

namespace CallFill

/-- A text for the place between two byte offsets. -/
structure TextEdit where
  start : Nat
  stop : Nat
  text : String
  deriving DecidableEq, Repr

namespace TextEdit

/-- Whether one edit is made before another: later starts first, and of two with one start the one
that ends later. -/
def comesFirst (a b : TextEdit) : Bool :=
  b.start < a.start || (b.start == a.start && b.stop ≤ a.stop)

/-- Makes an edit. -/
def apply (cs : List Char) (e : TextEdit) : Except Error (List Char) :=
  match Text.splice? cs e.start e.stop e.text.toList with
  | some result => .ok result
  | none => .error (.rejected (.outsideDocument e.start e.stop))

/-- Makes edits in the order given. -/
def applyInOrder (cs : List Char) (edits : List TextEdit) : Except Error (List Char) :=
  edits.foldlM apply cs

/-- Makes edits from the last to the first. -/
def applyAll (text : String) (edits : List TextEdit) : Except Error String :=
  (applyInOrder text.toList (edits.mergeSort comesFirst)).map String.ofList

end TextEdit

end CallFill
