import CallFill.Selection

/-!
# Choosers without a person

One takes the first option always; the other answers from a script of labels and remembers what it
was asked.
-/

namespace CallFill

namespace Chooser

/-- Takes the first option. -/
def first : Chooser Unit where
  choose state _ options _ := (options.head?, state)

/-- The answers still to be given, and the titles of the questions so far. -/
structure Script where
  answers : List String
  prompts : List String := []

/-- Whether an answer means an option: it is the option's label, or the label goes on with a
qualified name in parentheses. -/
def Script.answersTo (answer label : String) : Bool :=
  label = answer || (answer ++ " (").toList.isPrefixOf label.toList

/-- Answers from a script. An answer that means no option cancels, and so does an empty script. -/
def scripted : Chooser Script where
  choose script title options label :=
    let script := { script with prompts := script.prompts ++ [title] }
    match script.answers with
    | [] => (none, script)
    | answer :: rest =>
      (options.find? fun t => Script.answersTo answer (label t), { script with answers := rest })

end Chooser

end CallFill
