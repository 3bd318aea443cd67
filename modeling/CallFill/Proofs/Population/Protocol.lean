import CallFill.Proofs.Population.Interview

/-!
# What a run asks of its editor

Any request to an editor may fail, at any time. To see what a run asks, the editor is wrapped into
one that answers as before and keeps a log (`Editor.logged`). The log of a transaction is one of
four (`Editor.Course`): it could not be opened; it was cut at its first failing edit and rolled
back; all edits were made but the commit failed, and it was rolled back; or it was committed. A run
that plans nothing, or whose chooser cancels, asks nothing at all, and the report, the error and
the stage say which of all this happened (`Host.run_protocol`).
-/

namespace CallFill

/-- What can be asked of an editor. -/
inductive Operation where
  | begin
  | edit (edit : Edit)
  | commit
  | rollback
  deriving DecidableEq, Repr

/-- What was asked of an editor, in order, with the outcomes. -/
abbrev OperationLog := List (Operation × Except Error Unit)

/-- Whether the edit gives a call arguments. The others are imports. -/
def Edit.givesArgument : Edit → Bool
  | .replace .. => true
  | .append .. => true
  | .ensureImported .. => false

namespace Editor

variable {σ : Type}

/-- Answers a request and adds it to the log with its outcome. -/
def record (op : Operation) (answer : σ → Except Error Unit × σ) (s : σ × OperationLog) :
    Except Error Unit × σ × OperationLog :=
  ((answer s.1).1, (answer s.1).2, s.2 ++ [(op, (answer s.1).1)])

/-- The editor with a log of what it is asked. Rolling back always succeeds. -/
def logged (e : Editor σ) : Editor (σ × OperationLog) where
  begin := record .begin e.begin
  commit := record .commit e.commit
  rollback s := (e.rollback s.1, s.2 ++ [(.rollback, .ok ())])
  edit request := record (.edit request) (e.edit request)

/-- The log of edits that were all made. -/
def made (edits : List Edit) : OperationLog :=
  edits.map fun edit => (.edit edit, .ok ())

/-- The courses that a transaction of some edits can take, with the log and the result. -/
inductive Course (edits : List Edit) : OperationLog → Except Error Unit → Prop where
  /-- The transaction could not be opened. -/
  | refused (err : Error) : Course edits [(.begin, .error err)] (.error err)
  /-- An edit failed, and the later ones were not asked for. -/
  | cut {before after : List Edit} {edit : Edit} (hedits : edits = before ++ edit :: after)
      (err : Error) :
      Course edits ((.begin, .ok ()) :: (made before ++ [(.edit edit, .error err),
        (.rollback, .ok ())])) (.error err)
  /-- All edits were made, and the commit failed. -/
  | uncommitted (err : Error) :
      Course edits ((.begin, .ok ()) :: (made edits ++ [(.commit, .error err),
        (.rollback, .ok ())])) (.error err)
  /-- All edits were made and committed. -/
  | committed : Course edits ((.begin, .ok ()) :: (made edits ++ [(.commit, .ok ())])) (.ok ())

/-! ## Transactions -/

theorem record_eq {op : Operation} {answer : σ → Except Error Unit × σ} {log : OperationLog}
    {s s' : σ} {outcome : Except Error Unit} (h : answer s = (outcome, s')) :
    record op answer (s, log) = (outcome, s', log ++ [(op, outcome)]) := by
  rw [record, h]

theorem Course.ne_nil {edits : List Edit} {log : OperationLog} {result : Except Error Unit}
    (h : Course edits log result) : log ≠ [] := by
  cases h <;> exact List.cons_ne_nil _ _

/-- A transaction succeeds exactly if the last operation is a commit that does. -/
theorem Course.ok_iff {edits : List Edit} {log : OperationLog} {result : Except Error Unit}
    (h : Course edits log result) :
    result = .ok () ↔ log.getLast? = some (.commit, .ok ()) := by
  cases h with
  | refused err => simp
  | cut hedits err =>
      rw [← List.cons_append, List.getLast?_append]
      simp
  | uncommitted err =>
      rw [← List.cons_append, List.getLast?_append]
      simp
  | committed =>
      rw [← List.cons_append, List.getLast?_append]
      simp

/-- Edits are asked for in order, up to the first that fails. -/
theorem editAll_logged (e : Editor σ) (edits : List Edit) (s : σ) (log : OperationLog) :
    (∃ s', e.editAll edits s = (.ok (), s') ∧
      e.logged.editAll edits (s, log) = (.ok (), s', log ++ made edits)) ∨
    ∃ before edit after err s', edits = before ++ edit :: after ∧
      e.editAll edits s = (.error err, s') ∧
      e.logged.editAll edits (s, log) =
        (.error err, s', log ++ (made before ++ [(.edit edit, .error err)])) := by
  induction edits generalizing s log with
  | nil => exact Or.inl ⟨s, rfl, by rw [made, List.map_nil, List.append_nil, editAll]⟩
  | cons edit rest ih =>
      cases hanswer : e.edit edit s with
      | mk outcome next =>
          cases outcome with
          | error err =>
              exact Or.inr ⟨[], edit, rest, err, next, rfl, editAll_cons_of_error hanswer,
                editAll_cons_of_error (record_eq hanswer)⟩
          | ok u =>
              have hstep : e.logged.edit edit (s, log) =
                  (.ok (), next, log ++ [(.edit edit, .ok ())]) := record_eq hanswer
              rcases ih next (log ++ [(.edit edit, .ok ())]) with
                ⟨s', hrun, hlogged⟩ | ⟨before, failing, after, err, s', rfl, hrun, hlogged⟩
              · refine Or.inl ⟨s', (editAll_cons hanswer).trans hrun, ?_⟩
                rw [editAll_cons hstep, hlogged, List.append_assoc]
                rfl
              · refine Or.inr ⟨edit :: before, failing, after, err, s', rfl,
                  (editAll_cons hanswer).trans hrun, ?_⟩
                rw [editAll_cons hstep, hlogged, List.append_assoc]
                rfl

/-- With any editor, a transaction takes one of its courses, and the log changes nothing. -/
theorem transact_logged (e : Editor σ) (edits : List Edit) (s : σ) (log : OperationLog) :
    ∃ result s' more, e.transact edits s = (result, s') ∧
      e.logged.transact edits (s, log) = (result, s', log ++ more) ∧ Course edits more result := by
  -- the cases are the ends of a transaction: it is refused, cut short, not committed, or committed
  cases hbegin : e.begin s with
  | mk outcome opened =>
      cases outcome with
      | error err =>
          exact ⟨_, _, _, transact_of_begin_error hbegin,
            transact_of_begin_error (record_eq hbegin), Course.refused err⟩
      | ok u =>
          have hopen : e.logged.begin (s, log) = (.ok (), opened, log ++ [(.begin, .ok ())]) :=
            record_eq hbegin
          rcases editAll_logged e edits opened (log ++ [(.begin, .ok ())]) with
            ⟨s', hrun, hlogged⟩ | ⟨before, edit, after, err, s', hedits, hrun, hlogged⟩
          · cases hcommit : e.commit s' with
            | mk outcome last =>
                have hlast : e.logged.commit (s', log ++ [(.begin, .ok ())] ++ made edits) =
                    (outcome, last, log ++ [(.begin, .ok ())] ++ made edits ++
                      [(.commit, outcome)]) := record_eq hcommit
                cases outcome with
                | error err =>
                    refine ⟨_, _, _, transact_of_commit_error hbegin hrun hcommit, ?_,
                      Course.uncommitted err⟩
                    rw [transact_of_commit_error hopen hlogged hlast]
                    simp [logged]
                | ok u =>
                    refine ⟨_, _, _, transact_eq hbegin hrun hcommit, ?_, Course.committed⟩
                    rw [transact_eq hopen hlogged hlast]
                    simp
          · refine ⟨_, _, _, transact_of_edit_error hbegin hrun, ?_, Course.cut hedits err⟩
            rw [transact_of_edit_error hopen hlogged]
            simp [logged]

end Editor

/-! ## Runs -/

namespace Host

variable {σ τ : Type} {h : Host} {c : Config} {call : CallSite} {missing : List Parameter}
  {o : Options} {sel : Selections} {plan : List PlannedArgument}

/-- What a run plans; nothing at all if its chooser cancels. -/
def plannedBy (h : Host) (c : Config) (chooser : Chooser τ) (call : CallSite) (o : Options)
    (asked : τ) : Option (List PlannedArgument) :=
  (h.collect c chooser (h.missing call o) asked).1.map (h.plan c call o)

/-- How the operations of a run, its result and the stage it ends in go with its plan. There is no
plan if the chooser cancels. -/
structure KeepsProtocol (call : CallSite) (planned : Option (List PlannedArgument))
    (log : OperationLog) (result : Except Error Report) (stage : Stage) : Prop where
  /-- Nothing is asked of the editor, or a transaction takes its course that gives the call its
  arguments and then makes their names importable. -/
  operations : (log = [] ∧ (planned = none ∨ planned = some [])) ∨
    ∃ plan arguments imports, planned = some plan ∧ plan ≠ [] ∧
      edits call plan = arguments ++ imports ∧ arguments ≠ [] ∧
      (∀ edit ∈ arguments, edit.givesArgument = true) ∧
      (∀ edit ∈ imports, edit.givesArgument = false) ∧
      Editor.Course (arguments ++ imports) log (result.map fun _ => ())
  done_iff : (∃ report, result = .ok report ∧ report.stage = .done) ↔
    (log = [] ∧ planned ≠ none) ∨ log.getLast? = some (.commit, .ok ())
  aborted_iff : (∃ report, result = .ok report ∧ report.stage = .aborted) ↔ planned = none
  error_iff : (∃ err, result = .error err) ↔
    ¬(log = [] ∧ planned ≠ none) ∧ log.getLast? ≠ some (.commit, .ok ()) ∧ planned ≠ none
  stage_of_ok : ∀ report, result = .ok report → stage = report.stage
  stage_of_error : ∀ err, result = .error err → stage = .aborted
  stage_ends : stage = .done ∨ stage = .aborted

/-- The edits of a plan: some that give arguments, and then imports. -/
theorem exists_edits_eq (call : CallSite) (hne : plan ≠ []) :
    ∃ arguments imports, edits call plan = arguments ++ imports ∧ arguments ≠ [] ∧
      (∀ edit ∈ arguments, edit.givesArgument = true) ∧
      ∀ edit ∈ imports, edit.givesArgument = false := by
  refine ⟨_, _, rfl, ?_, ?_, ?_⟩
  · split
    · exact List.cons_ne_nil _ _
    · exact fun hnil => hne (List.map_eq_nil_iff.1 hnil)
  · intro edit hedit
    split at hedit
    · rw [List.mem_singleton.1 hedit]
      rfl
    · obtain ⟨a, _, rfl⟩ := List.mem_map.1 hedit
      rfl
  · intro edit hedit
    obtain ⟨a, _, hedit⟩ := List.mem_flatMap.1 hedit
    obtain ⟨symbol, _, rfl⟩ := List.mem_map.1 hedit
    rfl

/-- With nothing planned nothing is asked. -/
theorem keepsProtocol_nil (call : CallSite) :
    KeepsProtocol call (some []) [] (.ok { stage := .done }) .done where
  operations := Or.inl ⟨rfl, Or.inr rfl⟩
  done_iff := ⟨fun _ => Or.inl ⟨rfl, by simp⟩, fun _ => ⟨_, rfl, rfl⟩⟩
  aborted_iff := by simp
  error_iff := by simp
  stage_of_ok := by simp
  stage_of_error := by simp
  stage_ends := Or.inl rfl

theorem keepsProtocol_cancelled (call : CallSite) :
    KeepsProtocol call none [] (.ok { stage := .aborted }) .aborted where
  operations := Or.inl ⟨rfl, Or.inl rfl⟩
  done_iff := by simp
  aborted_iff := by simp
  error_iff := by simp
  stage_of_ok := by simp
  stage_of_error := by simp
  stage_ends := Or.inr rfl

/-- A transaction in one of its courses settles the result of the run. -/
theorem keepsProtocol_of_course (hne : plan ≠ []) {log : OperationLog}
    {result : Except Error Unit} (hcourse : Editor.Course (edits call plan) log result) :
    KeepsProtocol call (some plan) log (result.map fun _ => h.filledReport call plan)
      (if result.toBool then .done else .aborted) := by
  obtain ⟨arguments, imports, hedits, hsome, harguments, himports⟩ := exists_edits_eq call hne
  have hlog := hcourse.ne_nil
  have hok := hcourse.ok_iff
  cases result with
  | ok u =>
      have hlast := hok.1 rfl
      refine ⟨Or.inr ⟨plan, arguments, imports, rfl, hne, hedits, hsome, harguments, himports, ?_⟩,
        ?_, ?_, ?_, ?_, ?_, Or.inl rfl⟩
      · rw [← hedits]
        exact hcourse
      · exact ⟨fun _ => Or.inr hlast, fun _ => ⟨_, rfl, rfl⟩⟩
      · simp [Except.map, filledReport]
      · simp [Except.map, hlast]
      · simp [Except.map, filledReport, Except.toBool]
      · simp [Except.map]
  | error err =>
      have hlast : log.getLast? ≠ some (.commit, .ok ()) := fun hlast => nomatch hok.2 hlast
      refine ⟨Or.inr ⟨plan, arguments, imports, rfl, hne, hedits, hsome, harguments, himports, ?_⟩,
        ?_, ?_, ?_, ?_, ?_, Or.inr rfl⟩
      · rw [← hedits]
        exact hcourse
      · simp [Except.map, hlog, hlast]
      · simp [Except.map]
      · simp [Except.map, hlog, hlast]
      · simp [Except.map]
      · simp [Except.toBool]

/-- With any editor and any chooser, a run asks its editor for nothing or for one transaction in one
of its courses, and its result and its stage tell which. Keeping the log changes nothing else. -/
theorem run_protocol (h : Host) (c : Config) (e : Editor σ) (chooser : Chooser τ)
    (call : CallSite) (o : Options) (asked : τ) (s : σ) :
    ∃ result stage s' asked' log,
      h.run c e chooser call o asked s = ((result, stage, s'), asked') ∧
      h.run c e.logged chooser call o asked (s, []) = ((result, stage, s', log), asked') ∧
      KeepsProtocol call (h.plannedBy c chooser call o asked) log result stage := by
  rw [run_eq_interview, run_eq_interview, plannedBy, collect_eq_interview]
  cases h.interview chooser (h.questions c (h.missing call o)) asked with
  | mk outcome asked' =>
      cases outcome with
      | none => exact ⟨_, _, _, _, [], rfl, rfl, keepsProtocol_cancelled call⟩
      | some answers =>
          obtain ⟨plan, hplan⟩ : ∃ plan, h.plan c call o (h.selectionsOf answers) = plan := ⟨_, rfl⟩
          show ∃ result stage s' asked' log, _ ∧ _ ∧
            KeepsProtocol call (some (h.plan c call o (h.selectionsOf answers))) log result stage
          dsimp only
          rw [hplan, populate, populate]
          by_cases hne : plan = []
          · subst hne
            rw [populateMissing_of_nil hplan, populateMissing_of_nil hplan]
            exact ⟨_, _, _, _, [], rfl, rfl, keepsProtocol_nil call⟩
          · obtain ⟨result, s', log, hrun, hlogged, hcourse⟩ :=
              e.transact_logged (edits call plan) s []
            rw [populateMissing_of_transact hplan hne hrun,
              populateMissing_of_transact hplan hne hlogged]
            exact ⟨_, _, _, _, log, rfl, rfl, keepsProtocol_of_course hne hcourse⟩

end Host

end CallFill
