import CallFill.Proofs.Population.Interview
import CallFill.Proofs.Union.Settling

/-!
# What a chooser is asked

To see what a batch of questions asks, the chooser is wrapped into one that answers as before and
keeps a log (`Chooser.logged`). The questions are about the first ambiguous parameter for every
signature, in the order of the missing parameters (`Host.AskedAbout`). The log of a batch holds all
of them with an answer each, or those up to the first that is cancelled (`Host.Prompting`). In the
first case the signatures are mapped to the names of the answers; in the second there is no map.
-/

namespace CallFill

variable {τ : Type}

/-- A question as it was put to a chooser, and the answer. -/
structure Prompt where
  title : String
  options : List TypeId
  labels : List String
  answer : Option TypeId
  deriving DecidableEq, Repr

/-- What a chooser was asked, in order. -/
abbrev PromptLog := List Prompt

/-- The chooser with a log of what it is asked. -/
def Chooser.logged (chooser : Chooser τ) : Chooser (τ × PromptLog) where
  choose s title options label :=
    let answered := chooser.choose s.1 title options label
    (answered.1, answered.2, s.2 ++ [⟨title, options, options.map label, answered.1⟩])

namespace Host

variable (h : Host) (c : Config)

/-- A question about an ambiguous parameter: it is known by the signature of the parameter's union,
and offers the best leaves, ranked. -/
def IsQuestion (p : Parameter) (r : ChoiceRequest) : Prop :=
  r.parameter = p.name ∧ ∃ type members, p.type = some type ∧
    (h.shape type).members? = some members ∧ r.signature = Union.signature h members ∧
    Union.resolve h c members p.defaultText = .choice r.options ∧
    r.options = Union.rank h c members

/-- These are the first ambiguous parameters for all signatures among the missing ones, in order,
with the questions about them. -/
structure AskedAbout (missing : List Parameter) (asked : List (Parameter × ChoiceRequest)) :
    Prop where
  inOrder : (asked.map Prod.fst).Sublist missing
  isQuestion : ∀ a ∈ asked, h.IsQuestion c a.1 a.2
  isFirst : ∀ a ∈ asked, ∃ before after, missing = before ++ a.1 :: after ∧
    ∀ q ∈ before, ∀ r, h.IsQuestion c q r → r.signature ≠ a.2.signature
  distinct : (asked.map fun a => a.2.signature).Nodup
  complete : ∀ p ∈ missing, ∀ r, h.IsQuestion c p r → ∃ a ∈ asked, a.2.signature = r.signature

/-- A question as it is put to a chooser, with its answer. -/
def prompt (r : ChoiceRequest) (answer : Option TypeId) : Prompt where
  title := unionPrompt r.parameter
  options := r.options
  labels := r.options.map h.optionLabel
  answer := answer

/-- How a batch of questions can go, with the log and the answers. -/
inductive Prompting (questions : List ChoiceRequest) : PromptLog → Option Answers → Prop where
  /-- Every question was asked and answered. -/
  | answered (answers : Answers) (hall : answers.map Prod.fst = questions) :
      Prompting questions (answers.map fun a => h.prompt a.1 (some a.2)) (some answers)
  /-- One question was cancelled, and the later ones were not asked. -/
  | cancelled (answers : Answers) (r : ChoiceRequest) (after : List ChoiceRequest)
      (hquestions : questions = answers.map Prod.fst ++ r :: after) :
      Prompting questions ((answers.map fun a => h.prompt a.1 (some a.2)) ++ [h.prompt r none])
        none

variable {h c} {p : Parameter} {r : ChoiceRequest} {missing : List Parameter}

/-! ## The parameters that are asked about -/

/-- What is asked about a parameter is the question about it, if there is one. -/
theorem requestFor_eq_some_iff : h.requestFor c p = some r ↔ h.IsQuestion c p r := by
  rw [requestFor]
  constructor
  · intro hr
    cases hmembers : p.type.bind fun t => (h.shape t).members? with
    | none =>
        rw [hmembers] at hr
        exact nomatch hr
    | some members =>
        rw [hmembers] at hr
        obtain ⟨type, htype, hshape⟩ := Option.bind_eq_some_iff.1 hmembers
        obtain ⟨hchoice, hname, hsignature⟩ := Union.request_eq_some_iff.1 hr
        obtain ⟨hranked, -⟩ := Union.choice_of_resolve hchoice
        exact ⟨hname, type, members, htype, hshape, hsignature, hchoice, hranked⟩
  · rintro ⟨hname, type, members, htype, hshape, hsignature, hchoice, -⟩
    rw [htype, Option.bind_some, hshape]
    exact Union.request_eq_some_iff.2 ⟨hchoice, hname, hsignature⟩

/-- The ambiguous parameters among the missing ones, with the questions about them. -/
def ambiguous (h : Host) (c : Config) (missing : List Parameter) :
    List (Parameter × ChoiceRequest) :=
  missing.filterMap fun p => (h.requestFor c p).map (p, ·)

/-- The questions about the ambiguous parameters are the requests. -/
theorem map_snd_ambiguous (missing : List Parameter) :
    (h.ambiguous c missing).map Prod.snd = h.requests c missing := by
  rw [ambiguous, requests, List.map_filterMap]
  refine List.filterMap_congr fun p _ => ?_
  cases h.requestFor c p <;> rfl

/-- The ambiguous parameters are among the missing ones, in order. -/
theorem sublist_ambiguous (missing : List Parameter) :
    ((h.ambiguous c missing).map Prod.fst).Sublist missing := by
  induction missing with
  | nil => exact List.Sublist.slnil
  | cons p missing ih =>
      rw [ambiguous, List.filterMap_cons]
      cases h.requestFor c p with
      | none => exact ih.cons p
      | some r => exact ih.cons_cons p

/-- A parameter is ambiguous exactly if there is a question about it. -/
theorem mem_ambiguous_iff {a : Parameter × ChoiceRequest} :
    a ∈ h.ambiguous c missing ↔ a.1 ∈ missing ∧ h.IsQuestion c a.1 a.2 := by
  obtain ⟨p, r⟩ := a
  rw [ambiguous, List.mem_filterMap]
  constructor
  · rintro ⟨q, hq, hmap⟩
    obtain ⟨r', hr', heq⟩ := Option.map_eq_some_iff.1 hmap
    obtain ⟨rfl, rfl⟩ := Prod.mk.inj heq
    exact ⟨hq, requestFor_eq_some_iff.1 hr'⟩
  · rintro ⟨hp, hr⟩
    refine ⟨p, hp, ?_⟩
    rw [requestFor_eq_some_iff.2 hr]
    rfl

/-- Where the list of ambiguous parameters is cut, the list of missing ones can be cut. -/
theorem exists_split_of_ambiguous {before after : List (Parameter × ChoiceRequest)}
    {a : Parameter × ChoiceRequest} (hsplit : h.ambiguous c missing = before ++ a :: after) :
    ∃ front back, missing = front ++ a.1 :: back ∧ h.ambiguous c front = before := by
  obtain ⟨front, rest, rfl, hfront, hrest⟩ := List.filterMap_eq_append_iff.1 hsplit
  obtain ⟨skipped, p, back, rfl, hskipped, hp, -⟩ := List.filterMap_eq_cons_iff.1 hrest
  obtain ⟨r, -, heq⟩ := Option.map_eq_some_iff.1 hp
  refine ⟨front ++ skipped, back, ?_, ?_⟩
  · rw [← heq, List.append_assoc]
  · have hnone : h.ambiguous c skipped = [] := List.filterMap_eq_nil_iff.2 hskipped
    show (front ++ skipped).filterMap _ = before
    rw [List.filterMap_append, hfront]
    exact (congrArg (before ++ ·) hnone).trans (List.append_nil before)

/-- The first ambiguous parameter for each signature, with its question. -/
def firstAmbiguous (h : Host) (c : Config) (missing : List Parameter) :
    List (Parameter × ChoiceRequest) :=
  dedupBy (fun a => a.2.signature) (h.ambiguous c missing)

/-- One question for each signature is put. -/
theorem map_snd_firstAmbiguous (missing : List Parameter) :
    (h.firstAmbiguous c missing).map Prod.snd = h.questions c missing := by
  rw [questions, ← map_snd_ambiguous]
  exact map_dedupBy Prod.snd ChoiceRequest.signature (h.ambiguous c missing)

/-- The parameters asked about are the first ones for their signatures. -/
theorem askedAbout_firstAmbiguous (missing : List Parameter) :
    h.AskedAbout c missing (h.firstAmbiguous c missing) where
  inOrder := ((sublist_dedupBy _ _).map Prod.fst).trans (sublist_ambiguous missing)
  isQuestion a ha := (mem_ambiguous_iff.1 (mem_of_mem_dedupBy ha)).2
  isFirst a ha := by
    obtain ⟨before, after, hsplit, hnew⟩ := exists_split_of_mem_dedupBy ha
    obtain ⟨front, back, hmissing, hfront⟩ := exists_split_of_ambiguous hsplit
    refine ⟨front, back, hmissing, ?_⟩
    intro q hq r hr
    have hbefore : (q, r) ∈ before := by
      rw [← hfront]
      exact mem_ambiguous_iff.2 ⟨hq, hr⟩
    exact hnew (q, r) hbefore
  distinct := nodup_dedupBy _ _
  complete p hp r hr := by
    have hmem : (p, r) ∈ h.ambiguous c missing := mem_ambiguous_iff.2 ⟨hp, hr⟩
    exact exists_mem_dedupBy hmem

/-! ## The log of a batch -/

variable {chooser : Chooser τ} {questions : List ChoiceRequest} {log : PromptLog}
  {answers : Option Answers}

/-- A logged chooser answers like the one it logs, and notes the question. -/
theorem logged_choose {s s' : τ} {answer : Option TypeId}
    (hchoose : chooser.choose s (unionPrompt r.parameter) r.options h.optionLabel = (answer, s'))
    (log : PromptLog) :
    chooser.logged.choose (s, log) (unionPrompt r.parameter) r.options h.optionLabel =
      (answer, s', log ++ [h.prompt r answer]) := by
  rw [Chooser.logged]
  dsimp only
  rw [hchoose]
  rfl

/-- With the first question answered, a batch goes on with the others. -/
theorem Prompting.cons (hrest : h.Prompting questions log answers) (r : ChoiceRequest)
    (t : TypeId) :
    h.Prompting (r :: questions) (h.prompt r (some t) :: log) (answers.map ((r, t) :: ·)) := by
  cases hrest with
  | answered later hall =>
      refine Prompting.answered ((r, t) :: later) ?_
      rw [List.map_cons, hall]
  | cancelled later cut after hquestions =>
      refine Prompting.cancelled ((r, t) :: later) cut after ?_
      rw [hquestions]
      rfl

/-- An interview goes one of the two ways, and keeping the log changes nothing else. -/
theorem interview_logged (chooser : Chooser τ) (questions : List ChoiceRequest) (s : τ)
    (log : PromptLog) :
    ∃ answers s' more, h.interview chooser questions s = (answers, s') ∧
      h.interview chooser.logged questions (s, log) = (answers, s', log ++ more) ∧
      h.Prompting questions more answers := by
  induction questions generalizing s log with
  | nil =>
      refine ⟨some [], s, [], rfl, ?_, Prompting.answered [] rfl⟩
      rw [interview, List.append_nil]
  | cons r rest ih =>
      -- a question that is cancelled is the last one in the log
      cases hchoose : chooser.choose s (unionPrompt r.parameter) r.options h.optionLabel with
      | mk answer next =>
          have hlogged := logged_choose hchoose log
          cases answer with
          | none =>
              refine ⟨none, next, [h.prompt r none], interview_cons_cancelled hchoose,
                interview_cons_cancelled hlogged, ?_⟩
              exact Prompting.cancelled [] r rest rfl
          | some t =>
              obtain ⟨answers, s', more, hplain, hmore, hcourse⟩ :=
                ih next (log ++ [h.prompt r (some t)])
              refine ⟨answers.map ((r, t) :: ·), s', h.prompt r (some t) :: more, ?_, ?_,
                hcourse.cons r t⟩
              · rw [interview_cons_answered hchoose, hplain]
              · rw [interview_cons_answered hlogged, hmore, List.append_assoc]
                rfl

/-- Nothing is asked exactly if there are no questions. -/
theorem Prompting.eq_nil_iff (hcourse : h.Prompting questions log answers) :
    log = [] ↔ questions = [] := by
  cases hcourse with
  | answered answers hall => rw [← hall, List.map_eq_nil_iff, List.map_eq_nil_iff]
  | cancelled answers r after hquestions => simp [hquestions]

/-- There are no questions exactly if no union leaves a choice. -/
theorem questions_eq_nil_iff :
    h.questions c missing = [] ↔ h.hasUnionChoices c missing = false := by
  rw [hasUnionChoices, Bool.not_eq_false', List.isEmpty_iff, questions]
  cases h.requests c missing with
  | nil => exact ⟨fun _ => rfl, fun _ => rfl⟩
  | cons r rest => simp [dedupBy]

/-- With any chooser, a batch asks about the first ambiguous parameter for each signature, one after
the other and up to the first that is cancelled. If none is, it leaves the names of the answers by
these signatures. It asks nothing at all exactly if there are no choices to be made. -/
theorem collect_prompts (h : Host) (c : Config) (chooser : Chooser τ) (missing : List Parameter)
    (s : τ) :
    ∃ asked log answers s', h.AskedAbout c missing asked ∧
      h.Prompting (asked.map Prod.snd) log answers ∧
      h.collect c chooser missing s = (answers.map h.selectionsOf, s') ∧
      h.collect c chooser.logged missing (s, []) = (answers.map h.selectionsOf, s', log) ∧
      (log = [] ↔ h.hasUnionChoices c missing = false) := by
  obtain ⟨answers, s', log, hplain, hlogged, hcourse⟩ :=
    h.interview_logged chooser (h.questions c missing) s []
  have hquestions : (h.firstAmbiguous c missing).map Prod.snd = h.questions c missing :=
    map_snd_firstAmbiguous missing
  refine ⟨h.firstAmbiguous c missing, log, answers, s', askedAbout_firstAmbiguous missing, ?_, ?_,
    ?_, ?_⟩
  · rw [hquestions]
    exact hcourse
  · rw [collect_eq_interview, hplain]
  · rw [collect_eq_interview, hlogged]
    rfl
  · rw [hcourse.eq_nil_iff, questions_eq_nil_iff]

end Host

end CallFill
