import CallFill.KeyedList
import CallFill.Missing
import CallFill.Synthesis

/-!
# Asking for ambiguous unions

A chooser is asked once for every distinct union among the missing parameters, in order. An answer
holds for every later parameter with the same union; a cancellation ends the questions and discards
the answers.
-/

namespace CallFill

/-- Someone who can be asked to choose, with a state that every question may change: from a title,
the options and their labels to one option, or to a cancellation. -/
structure Chooser (σ : Type) where
  choose : σ → String → List TypeId → (TypeId → String) → Option TypeId × σ

/-- The title of the question about a parameter's union. -/
def unionPrompt (parameter : String) : String :=
  "Select union type for " ++ parameter

namespace Host

variable (h : Host) (c : Config)

/-- The label of an option: its symbol's, or its rendered name. -/
def optionLabel (t : TypeId) : String :=
  match (h.symbolOf t).bind h.symbol with
  | some s => s.label
  | none => h.displayName t

/-- The question about one parameter, if its type is an ambiguous union. -/
def requestFor (p : Parameter) : Option ChoiceRequest :=
  match p.type.bind fun t => (h.shape t).members? with
  | some members => Union.request h c p.name members p.defaultText
  | none => none

/-- The questions about the missing parameters, in order. -/
def requests (missing : List Parameter) : List ChoiceRequest :=
  missing.filterMap (h.requestFor c)

/-- Whether anything has to be asked before values can be written. -/
def hasUnionChoices (missing : List Parameter) : Bool :=
  !(h.requests c missing).isEmpty

/-- Asks the questions in order, except those whose union is answered already. None is the
cancelled outcome. -/
def askAll {σ : Type} (chooser : Chooser σ) :
    List ChoiceRequest → Selections → σ → Option Selections × σ
  | [], answers, state => (some answers, state)
  | r :: rest, answers, state =>
    if answers.has r.signature then askAll chooser rest answers state
    else
      match chooser.choose state (unionPrompt r.parameter) r.options h.optionLabel with
      | (some t, state) => askAll chooser rest (answers.put r.signature (h.displayName t)) state
      | (none, state) => (none, state)

/-- Asks about every ambiguous union among the missing parameters. -/
def collect {σ : Type} (chooser : Chooser σ) (missing : List Parameter) (state : σ) :
    Option Selections × σ :=
  h.askAll chooser (h.requests c missing) [] state

end Host

end CallFill
