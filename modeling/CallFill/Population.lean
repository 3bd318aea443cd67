import CallFill.Chooser
import CallFill.Transaction

/-!
# Filling a call

From the missing parameters and the answers about ambiguous unions comes a plan: a name and a value
for each argument. A population carries the plan out in one transaction and reports what it did;
with nothing planned it does nothing. `run` asks the questions first, and a cancellation ends it
before anything is edited.
-/

namespace CallFill

/-- Where a population stands. -/
inductive Stage where
  | idle
  | analyzing
  | selectingUnions
  | synthesizing
  | mutating
  | done
  | aborted
  deriving DecidableEq, Repr

/-- The name of a stage in reports. -/
def Stage.name : Stage → String
  | .idle => "idle"
  | .analyzing => "analyzing"
  | .selectingUnions => "selecting_unions"
  | .synthesizing => "synthesizing"
  | .mutating => "mutating"
  | .done => "done"
  | .aborted => "aborted"

/-- A keyword argument to be inserted. -/
structure PlannedArgument where
  name : String
  value : String
  symbols : List SymbolId
  deriving DecidableEq, Repr

/-- The argument as it is inserted. -/
def PlannedArgument.text (a : PlannedArgument) : String :=
  a.name ++ "=" ++ a.value

/-- The arguments as they are inserted together. -/
def planText (plan : List PlannedArgument) : String :=
  ", ".intercalate (plan.map PlannedArgument.text)

/-- What a population did. -/
structure Report where
  stage : Stage
  /-- The inserted arguments, in order. -/
  arguments : List String := []
  /-- The qualified names that were made importable. -/
  imports : List String := []
  replacedArgumentList : Bool := false
  deriving DecidableEq, Repr

/-- Whether any text was changed. -/
def Report.changed (r : Report) : Bool :=
  r.stage = .done && !r.arguments.isEmpty

namespace Synthesis

variable (s : Synthesis)

/-- The value for a parameter by its type; where only the alias of a record's field is known, the
alias around the sentinel. -/
def parameterValue (p : Parameter) : Value :=
  let result := match p.type with
    | some t => s.value t 0 p.defaultText
    | none => .unknown
  match p.aliasSymbol with
  | none => result
  | some symbol =>
    if result.isSentinel then (s.aliasWrap symbol).getD result
    else
      match s.host.symbol symbol with
      | some sym =>
        if result.text = aliasPlaceholder sym.name then
          { result with symbols := mergeSymbols result.symbols [symbol] }
        else result
      | none => result

/-- What stands for a parameter without a variable of its name when variables in scope are passed:
a value without the sentinel anywhere, or `None`. -/
def fallbackValue (p : Parameter) : Value :=
  let result := s.parameterValue p
  if result.containsSentinel then { text := "None" } else result

/-- The argument for a missing parameter, none if it keeps its default. -/
def plannedArgument (scope : ScopeId) (p : Parameter) : Option PlannedArgument :=
  let planned (v : Value) : PlannedArgument := ⟨p.name, v.text, v.symbols⟩
  if s.options.useLocalScope then
    match s.host.lookup p.name scope with
    | some binding => some (planned { text := binding.name })
    | none => if p.hasDefault then none else some (planned (s.fallbackValue p))
  else some (planned (s.parameterValue p))

end Synthesis

namespace Host

variable (h : Host) (c : Config)

/-- The arguments for parameters of a call. -/
def planFor (call : CallSite) (missing : List Parameter) (o : Options) (sel : Selections) :
    List PlannedArgument :=
  missing.filterMap ((⟨h, c, o, sel, call.file⟩ : Synthesis).plannedArgument call.scope)

/-- The arguments that filling the call would insert. -/
def plan (call : CallSite) (o : Options) (sel : Selections) : List PlannedArgument :=
  h.planFor c call (h.missing call o) o sel

/-- Whether a type is a record, or a union with a record among its leaves. -/
def isRecordLike (t : TypeId) : Bool :=
  match h.shape t with
  | .record .. => true
  | .union members => (Union.flatten h members).any fun m => (h.shape m).isRecord
  | _ => false

/-- Whether filling the call may write out nested records. -/
def isRecursiveApplicable (call : CallSite) : Bool :=
  match h.callee call with
  | none => false
  | some s =>
    s.parameters.any fun p =>
      !p.isVariadic && (p.aliasSymbol.isSome || p.type.any h.isRecordLike)

/-- The edits of a plan: the arguments, then what they need imported. -/
def edits (call : CallSite) (plan : List PlannedArgument) : List Edit :=
  (if call.argumentCount = 0 then [.replace call (planText plan)]
    else plan.map fun a => .append call a.name a.value) ++
  plan.flatMap fun a => a.symbols.map fun symbol => .ensureImported call.file a.text symbol

/-- The qualified names of the symbols a plan needs, each once. -/
def importedNames (plan : List PlannedArgument) : List String :=
  dedupBy id (plan.flatMap fun a => a.symbols.filterMap fun symbol =>
    (h.symbol symbol).map Symbol.qualifiedName)

/-- The report about a plan that was carried out. -/
def filledReport (call : CallSite) (plan : List PlannedArgument) : Report where
  stage := .done
  arguments := plan.map PlannedArgument.text
  imports := h.importedNames plan
  replacedArgumentList := call.argumentCount = 0

/-- A plan that was carried out has changed something, unless it was empty. -/
theorem changed_filledReport {plan : List PlannedArgument} (call : CallSite) (hne : plan ≠ []) :
    (h.filledReport call plan).changed = true := by
  cases plan with
  | nil => exact absurd rfl hne
  | cons a plan => rfl

variable {σ : Type} (e : Editor σ)

/-- Fills the parameters of a call in one transaction: the report or the error, the stage reached
and the editor's state. -/
def populateMissing (call : CallSite) (missing : List Parameter) (o : Options)
    (sel : Selections) (state : σ) : Except Error Report × Stage × σ :=
  let plan := h.planFor c call missing o sel
  if missing.isEmpty || plan.isEmpty then (.ok { stage := .done }, .done, state)
  else
    match e.transact (edits call plan) state with
    | (.ok (), state) => (.ok (h.filledReport call plan), .done, state)
    | (.error err, state) => (.error err, .aborted, state)

variable {h c e} in
/-- With nothing planned nothing is done. -/
theorem populateMissing_of_nil {call : CallSite} {missing : List Parameter} {o : Options}
    {sel : Selections} {state : σ} (hplan : h.planFor c call missing o sel = []) :
    h.populateMissing c e call missing o sel state = (.ok { stage := .done }, .done, state) := by
  rw [populateMissing, hplan]
  exact if_pos (Bool.or_true _)

variable {h c e} in
/-- With a plan, a population is the transaction of its edits. -/
theorem populateMissing_of_transact {call : CallSite} {missing : List Parameter} {o : Options}
    {sel : Selections} {plan : List PlannedArgument} {state state' : σ}
    {result : Except Error Unit} (hplan : h.planFor c call missing o sel = plan) (hne : plan ≠ [])
    (htransact : e.transact (edits call plan) state = (result, state')) :
    h.populateMissing c e call missing o sel state =
      (result.map fun _ => h.filledReport call plan,
        if result.toBool then .done else .aborted, state') := by
  have hmissing : missing ≠ [] := by
    rintro rfl
    exact hne hplan.symm
  have hsome : (missing.isEmpty || plan.isEmpty) = false := by
    rw [Bool.or_eq_false_iff, List.isEmpty_eq_false_iff, List.isEmpty_eq_false_iff]
    exact ⟨hmissing, hne⟩
  rw [populateMissing, hplan, hsome, if_neg Bool.false_ne_true, htransact]
  cases result <;> rfl

/-- Fills a call with the answers given. -/
def populate (call : CallSite) (o : Options) (sel : Selections) (state : σ) :
    Except Error Report × Stage × σ :=
  h.populateMissing c e call (h.missing call o) o sel state

/-- Asks about ambiguous unions and fills the call with the answers. -/
def run {τ : Type} (chooser : Chooser τ) (call : CallSite) (o : Options) (asked : τ)
    (state : σ) : (Except Error Report × Stage × σ) × τ :=
  let missing := h.missing call o
  if h.hasUnionChoices c missing then
    match h.collect c chooser missing asked with
    | (some sel, asked) => (h.populateMissing c e call missing o sel state, asked)
    | (none, asked) => ((.ok { stage := .aborted }, .aborted, state), asked)
  else (h.populateMissing c e call missing o [] state, asked)

end Host

end CallFill
