import CallFill.Population

/-!
# The questions of a run

A run asks as it goes along the missing parameters and skips what is answered already. Seen as a
whole it is an interview: the questions are known before the first is asked, one for each signature,
and the answers are known when the last is answered. So a run is the interview followed by a
population with its answers, or nothing at all if the interview is broken off.
-/

namespace CallFill

variable {τ : Type}

/-- A chooser that answers with one of the options it is offered, or cancels. -/
def Chooser.OffersOnly (chooser : Chooser τ) : Prop :=
  ∀ state title options label t state',
    chooser.choose state title options label = (some t, state') → t ∈ options

/-- Questions with the options that were chosen. -/
abbrev Answers := List (ChoiceRequest × TypeId)

namespace Host

variable (h : Host) (c : Config)

/-- The questions about missing parameters, the first for each signature. -/
def questions (missing : List Parameter) : List ChoiceRequest :=
  dedupBy ChoiceRequest.signature (h.requests c missing)

/-- Asks one question after the other. None is the cancelled outcome. -/
def interview (chooser : Chooser τ) : List ChoiceRequest → τ → Option Answers × τ
  | [], state => (some [], state)
  | r :: rest, state =>
    match chooser.choose state (unionPrompt r.parameter) r.options h.optionLabel with
    | (some t, state) =>
      let later := interview chooser rest state
      (later.1.map ((r, t) :: ·), later.2)
    | (none, state) => (none, state)

/-- The rendered names of the chosen options by the signatures of the questions. -/
def selectionsOf (answers : Answers) : Selections :=
  answers.map fun (r, t) => (r.signature, h.displayName t)

variable {h c} {chooser : Chooser τ}

/-! ## What an interview leaves -/

/-- A question that is cancelled ends the interview without answers. -/
theorem interview_cons_cancelled {r : ChoiceRequest} {rest : List ChoiceRequest} {state state' : τ}
    (hchoose : chooser.choose state (unionPrompt r.parameter) r.options h.optionLabel =
      (none, state')) :
    h.interview chooser (r :: rest) state = (none, state') := by
  rw [interview, hchoose]

/-- A question that is answered is followed by the others. -/
theorem interview_cons_answered {r : ChoiceRequest} {rest : List ChoiceRequest} {t : TypeId}
    {state state' : τ}
    (hchoose : chooser.choose state (unionPrompt r.parameter) r.options h.optionLabel =
      (some t, state')) :
    h.interview chooser (r :: rest) state =
      ((h.interview chooser rest state').1.map ((r, t) :: ·),
        (h.interview chooser rest state').2) := by
  rw [interview, hchoose]

/-- Every question is answered, in the order of asking, with what its chooser answers. -/
theorem answers_of_interview {requests : List ChoiceRequest} {answers : Answers} {state state' : τ}
    (hasked : h.interview chooser requests state = (some answers, state')) :
    answers.map Prod.fst = requests ∧ (chooser.OffersOnly → ∀ a ∈ answers, a.2 ∈ a.1.options) := by
  induction requests generalizing answers state state' with
  | nil =>
      obtain rfl : [] = answers := Option.some.inj (Prod.mk.inj hasked).1
      exact ⟨rfl, fun _ a ha => absurd ha List.not_mem_nil⟩
  | cons r rest ih =>
      cases hchoose : chooser.choose state (unionPrompt r.parameter) r.options h.optionLabel with
      | mk answer next =>
          cases answer with
          | none =>
              rw [interview_cons_cancelled hchoose] at hasked
              exact nomatch hasked
          | some t =>
              rw [interview_cons_answered hchoose] at hasked
              obtain ⟨hanswers, hstate⟩ := Prod.mk.inj hasked
              obtain ⟨later, hlater, rfl⟩ := Option.map_eq_some_iff.1 hanswers
              obtain ⟨hrequests, hoptions⟩ := ih (Prod.ext hlater rfl)
              refine ⟨by rw [List.map_cons, hrequests], ?_⟩
              intro hoffers a ha
              rcases List.mem_cons.1 ha with rfl | ha
              · exact hoffers _ _ _ _ _ _ hchoose
              · exact hoptions hoffers a ha

/-! ## The run as an interview -/

/-- The questions that are open when some answers are known. -/
def unanswered (known : Selections) (requests : List ChoiceRequest) : List ChoiceRequest :=
  dedupBy ChoiceRequest.signature (requests.filter fun r => !known.has r.signature)

/-- What is known already is not asked. -/
theorem unanswered_cons_of_has {known : Selections} {r : ChoiceRequest}
    (hknown : known.has r.signature = true) (rest : List ChoiceRequest) :
    unanswered known (r :: rest) = unanswered known rest := by
  rw [unanswered, List.filter_cons, hknown]
  rfl

/-- Once the first open question is answered, the others are those of another signature. -/
theorem unanswered_cons_of_not_has {known : Selections} {r : ChoiceRequest}
    (hknown : known.has r.signature = false) (rest : List ChoiceRequest) (name : String) :
    unanswered known (r :: rest) = r :: unanswered (known.put r.signature name) rest := by
  have hlater : (rest.filter fun q => !(known.put r.signature name).has q.signature) =
      (rest.filter fun q => !known.has q.signature).filter
        fun q => q.signature ≠ r.signature := by
    rw [List.filter_filter]
    refine List.filter_congr fun q _ => ?_
    rw [KeyedList.has, KeyedList.get?_put]
    by_cases hq : r.signature = q.signature
    · simp [hq]
    · simp [hq, Ne.symm hq, KeyedList.has]
  rw [unanswered, unanswered, hlater, List.filter_cons, hknown]
  exact congrArg (r :: ·) (filter_dedupBy (fun a b hab => by rw [hab]) _)

/-- Asking along the way is an interview about what is open. -/
theorem askAll_eq_interview (requests : List ChoiceRequest) (known : Selections) (state : τ) :
    h.askAll chooser requests known state =
      ((h.interview chooser (unanswered known requests) state).1.map
          fun answers => known ++ h.selectionsOf answers,
        (h.interview chooser (unanswered known requests) state).2) := by
  induction requests generalizing known state with
  | nil => simp [askAll, unanswered, dedupBy, interview, selectionsOf]
  | cons r rest ih =>
      rw [askAll]
      -- what is known is carried along: a question is open exactly if its signature is not among it
      cases hknown : KeyedList.has known r.signature with
      | true =>
          rw [if_pos rfl, unanswered_cons_of_has hknown]
          exact ih known state
      | false =>
          rw [if_neg Bool.false_ne_true]
          cases hchoose : chooser.choose state (unionPrompt r.parameter) r.options
              h.optionLabel with
          | mk answer next =>
              cases answer with
              | none =>
                  rw [unanswered_cons_of_not_has hknown rest "", interview_cons_cancelled hchoose]
                  rfl
              | some t =>
                  rw [unanswered_cons_of_not_has hknown rest (h.displayName t),
                    interview_cons_answered hchoose]
                  dsimp only
                  rw [ih, Option.map_map, KeyedList.put_of_not_has hknown]
                  simp [selectionsOf, Function.comp_def]

/-- Collecting the answers is an interview about the questions, each signature asked about once. -/
theorem collect_eq_interview (missing : List Parameter) (asked : τ) :
    h.collect c chooser missing asked =
      ((h.interview chooser (h.questions c missing) asked).1.map h.selectionsOf,
        (h.interview chooser (h.questions c missing) asked).2) := by
  have hall : unanswered [] (h.requests c missing) = h.questions c missing := by
    have hfilter := List.filter_eq_self.2 fun r (_ : r ∈ h.requests c missing) =>
      (rfl : (!KeyedList.has ([] : Selections) r.signature) = true)
    rw [unanswered, questions, hfilter]
  rw [collect, askAll_eq_interview, hall]
  rfl

/-- A run is an interview followed by a population with the answers; if the interview is broken
off, nothing is edited. -/
theorem run_eq_interview {σ : Type} (e : Editor σ) (call : CallSite) (o : Options) (asked : τ)
    (state : σ) :
    h.run c e chooser call o asked state =
      match h.interview chooser (h.questions c (h.missing call o)) asked with
      | (some answers, asked') => (h.populate c e call o (h.selectionsOf answers) state, asked')
      | (none, asked') => ((.ok { stage := .aborted }, .aborted, state), asked') := by
  rw [run]
  split
  · rw [collect_eq_interview]
    cases h.interview chooser (h.questions c (h.missing call o)) asked with
    | mk outcome asked' =>
        cases outcome with
        | none => rfl
        | some answers => rfl
  · next hnone =>
      have hempty : h.questions c (h.missing call o) = [] := by
        rw [hasUnionChoices, Bool.not_eq_true', Bool.not_eq_false, List.isEmpty_iff] at hnone
        rw [questions, hnone]
        rfl
      rw [hempty]
      rfl

end Host

end CallFill
