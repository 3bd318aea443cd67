import CallFill.Population
import CallFill.ProjectHost

/-!
# The call a population leaves

A population adds its planned arguments to the call as keywords. A planned argument has the name of
its parameter, so in the call it leaves only those parameters are missing still for which nothing
was planned, and nothing is planned for them again: filling a call once exhausts it, whatever the
options. With the default options something is planned for every missing parameter, so a call can be
filled exactly when something is missing.
-/

namespace CallFill

/-- The call with more keywords behind those it has. -/
def CallSite.withKeywords (call : CallSite) (names : List String) : CallSite :=
  { call with keywords := call.keywords ++ names }

namespace Host

/-- What a call calls does not depend on the arguments it has. -/
def IgnoresArguments (h : Host) : Prop :=
  ∀ (call : CallSite) (positional : Nat) (keywords : List String) (unpacking : Nat),
    h.callee { call with positional, keywords, unpacking } = h.callee call

/-- What the values for a call are written from. -/
abbrev synthesis (h : Host) (c : Config) (call : CallSite) (o : Options) (sel : Selections) :
    Synthesis :=
  ⟨h, c, o, sel, call.file⟩

/-- The names of the arguments that filling a call would insert. -/
def plannedNames (h : Host) (c : Config) (call : CallSite) (o : Options) (sel : Selections) :
    List String :=
  (h.plan c call o sel).map PlannedArgument.name

/-- The call with the planned arguments. -/
def filled (h : Host) (c : Config) (call : CallSite) (o : Options) (sel : Selections) : CallSite :=
  call.withKeywords (h.plannedNames c call o sel)

end Host

/-- In a project, the arguments of a call have no part in finding what it calls. -/
theorem Project.ignoresArguments_host (p : Project) : p.host.IgnoresArguments := by
  intro call positional keywords unpacking
  simp only [Project.host, Project.callee?, Project.enclosingMethod?, Project.namedCallee?]

namespace Synthesis

variable {s : Synthesis} {scope : ScopeId} {p : Parameter} {a : PlannedArgument}

/-- An argument is planned under the name of its parameter. -/
theorem name_of_plannedArgument (h : s.plannedArgument scope p = some a) : a.name = p.name := by
  rw [plannedArgument] at h
  dsimp only at h
  split at h
  · split at h
    · obtain rfl := Option.some.inj h
      rfl
    · split at h
      · exact nomatch h
      · obtain rfl := Option.some.inj h
        rfl
  · obtain rfl := Option.some.inj h
    rfl

/-- Only a parameter with a default may stay without an argument, and only where variables in scope
are passed. -/
theorem exists_plannedArgument (s : Synthesis) (scope : ScopeId)
    (hwanted : s.options.useLocalScope = false ∨ p.hasDefault = false) :
    ∃ a, s.plannedArgument scope p = some a := by
  rw [plannedArgument]
  dsimp only
  split
  · next hlocal =>
      split
      · exact ⟨_, rfl⟩
      · rcases hwanted with hnot | hrequired
        · rw [hlocal] at hnot
          exact nomatch hnot
        · rw [hrequired]
          exact ⟨_, rfl⟩
  · exact ⟨_, rfl⟩

end Synthesis

namespace Host

variable {h : Host} {c : Config} {call : CallSite} {o : Options} {sel : Selections}

/-- With more keywords, the parameters of these names are missing no more, and all others still
are. -/
theorem missing_withKeywords (hcallee : h.IgnoresArguments) (call : CallSite)
    (names : List String) (o : Options) :
    h.missing (call.withKeywords names) o =
      (h.missing call o).filter fun p => !names.contains p.name := by
  have hsame : h.callee (call.withKeywords names) = h.callee call :=
    hcallee call call.positional (call.keywords ++ names) call.unpacking
  have hunpacking : (call.withKeywords names).hasUnpacking = call.hasUnpacking := rfl
  rw [missing, missing, hsame, hunpacking]
  cases h.callee call with
  | none => rfl
  | some s =>
      dsimp only
      split
      · rfl
      · rw [List.filter_filter]
        refine List.filter_congr fun p _ => ?_
        have hbound : (s.boundNames (call.withKeywords names)).contains p.name =
            ((s.boundNames call).contains p.name || names.contains p.name) := by
          simp [Signature.boundNames, CallSite.withKeywords, Bool.or_assoc]
        rw [hbound, Bool.not_or]
        -- the same conditions in another order
        generalize p.isOffered = offered
        generalize (s.boundNames call).contains p.name = bound
        generalize names.contains p.name = named
        generalize (o.includesDefaulted || !p.hasDefault) = wanted
        revert offered bound named wanted
        decide

/-- A name is planned when its parameter is missing and gets an argument. -/
theorem mem_plannedNames {p : Parameter} {a : PlannedArgument} (hp : p ∈ h.missing call o)
    (ha : (h.synthesis c call o sel).plannedArgument call.scope p = some a) :
    p.name ∈ h.plannedNames c call o sel := by
  rw [← Synthesis.name_of_plannedArgument ha]
  exact List.mem_map_of_mem (List.mem_filterMap.2 ⟨p, hp, ha⟩)

/-- The planned names are names of missing parameters, in their order. -/
theorem plannedNames_sublist (h : Host) (c : Config) (call : CallSite) (o : Options)
    (sel : Selections) :
    (h.plannedNames c call o sel).Sublist ((h.missing call o).map Parameter.name) := by
  rw [plannedNames, plan, planFor]
  induction h.missing call o with
  | nil => exact List.Sublist.slnil
  | cons p missing ih =>
      rw [List.map_cons, List.filterMap_cons]
      split
      · exact ih.cons p.name
      · next a ha =>
          rw [List.map_cons, Synthesis.name_of_plannedArgument ha]
          exact ih.cons_cons p.name

/-- Nothing is planned for what a filled call misses. -/
theorem plan_filled (hcallee : h.IgnoresArguments) (c : Config) (call : CallSite) (o : Options)
    (sel : Selections) : h.plan c (h.filled c call o sel) o sel = [] := by
  rw [plan, filled, missing_withKeywords hcallee, planFor, List.filterMap_eq_nil_iff]
  intro p hp
  obtain ⟨hmissing, hfree⟩ := List.mem_filter.1 hp
  rw [Bool.not_eq_true', List.contains_eq_mem, decide_eq_false_iff_not] at hfree
  cases ha : (h.synthesis c call o sel).plannedArgument call.scope p with
  | none => exact ha
  | some a => exact absurd (mem_plannedNames hmissing ha) hfree

/-- Without variables in scope, nothing is missing in a filled call. -/
theorem missing_filled (hcallee : h.IgnoresArguments) (c : Config) (call : CallSite)
    (sel : Selections) (hlocal : o.useLocalScope = false) :
    h.missing (h.filled c call o sel) o = [] := by
  rw [filled, missing_withKeywords hcallee, List.filter_eq_nil_iff]
  intro p hp
  obtain ⟨a, ha⟩ := (h.synthesis c call o sel).exists_plannedArgument call.scope (Or.inl hlocal)
  simpa using mem_plannedNames hp ha

/-- Without variables in scope, nothing is planned only where nothing is missing. -/
theorem plan_eq_nil_iff (h : Host) (c : Config) (call : CallSite) (sel : Selections)
    (hlocal : o.useLocalScope = false) :
    h.plan c call o sel = [] ↔ h.missing call o = [] := by
  rw [plan, planFor, List.filterMap_eq_nil_iff, List.eq_nil_iff_forall_not_mem]
  constructor
  · intro hnone p hp
    obtain ⟨a, ha⟩ := (h.synthesis c call o sel).exists_plannedArgument call.scope (Or.inl hlocal)
    rw [hnone p hp] at ha
    exact nomatch ha
  · intro hnone p hp
    exact absurd hp (hnone p)

/-- **Filling a call exhausts it.** In the call with the planned keywords nothing is planned, and a
population of it leaves the editor as it is. With the default options, a call can be filled exactly
when something is planned for it, and after the filling no more. -/
theorem population_exhausted (hcallee : h.IgnoresArguments) (c : Config) (call : CallSite)
    (o : Options) (sel : Selections) :
    h.plan c (h.filled c call o sel) o sel = [] ∧
    (∀ {σ : Type} (e : Editor σ) (state : σ),
      h.populate c e (h.filled c call o sel) o sel state =
        (.ok { stage := .done }, .done, state)) ∧
    (h.isAvailable call = true ↔ h.plan c call {} sel ≠ []) ∧
    h.isAvailable (h.filled c call {} sel) = false := by
  have hnone := plan_filled hcallee c call o sel
  refine ⟨hnone, ?_, ?_, ?_⟩
  · intro σ e state
    exact populateMissing_of_nil hnone
  · rw [isAvailable, Bool.not_eq_true', List.isEmpty_eq_false_iff, ne_eq, ne_eq,
      plan_eq_nil_iff h c call sel rfl]
  · rw [isAvailable, missing_filled hcallee c call sel rfl]
    rfl

/-- A host that knows nothing about anything. -/
def blank : Host where
  shape _ := .unknown
  displayName _ := ""
  symbolOf _ := none
  symbol _ := none
  provenance _ := none
  needsArguments _ := false
  lookup _ _ := none
  visibleAlias _ _ := none
  callee _ := none

/-- A host with one function, `greet(name, mark='!', *rest, times=1, loud=False)`, and the variable
`times` in every scope. -/
def greeting : Host :=
  { blank with
    lookup := fun name _ => if name = "times" then some { name, kind := .local } else none
    callee := fun _ => some {
      name := "greet"
      parameters := [
        { name := "name" },
        { name := "mark", hasDefault := true },
        { name := "rest", isVariadic := true },
        { name := "times", hasDefault := true, isKeywordOnly := true },
        { name := "loud", hasDefault := true, isKeywordOnly := true }] } }

/-- The call `greet()`. -/
def greetCall : CallSite where
  id := ⟨0⟩
  file := ⟨0⟩
  scope := ⟨0⟩
  callee := "greet"
  positional := 0
  keywords := []
  unpacking := 0

/-- The call that passes the variable `times`, and a value for the parameter without a default. -/
def greetFilled : CallSite :=
  greeting.filled Config.default greetCall (Options.withLocalScope {}) []

/-- The parameters `mark` and `loud` stay missing, since they have defaults and no variable of
their names is in scope; but nothing is planned for them. -/
theorem greeting_exhausted :
    greetFilled.keywords = ["name", "times"] ∧
    (greeting.missing greetFilled (Options.withLocalScope {})).map Parameter.name =
      ["mark", "loud"] ∧
    greeting.IgnoresArguments ∧
    greeting.plan Config.default greetFilled (Options.withLocalScope {}) [] = [] ∧
    (∀ {σ : Type} (e : Editor σ) (state : σ),
      greeting.populate Config.default e greetFilled (Options.withLocalScope {}) [] state =
        (.ok { stage := .done }, .done, state)) ∧
    (greeting.isAvailable greetCall = true ↔
      greeting.plan Config.default greetCall {} [] ≠ []) ∧
    greeting.isAvailable (greeting.filled Config.default greetCall {} []) = false := by
  have hcallee : greeting.IgnoresArguments := fun _ _ _ _ => rfl
  exact ⟨by decide +kernel, by decide +kernel, hcallee,
    population_exhausted hcallee Config.default greetCall (Options.withLocalScope {}) []⟩

end Host

end CallFill
