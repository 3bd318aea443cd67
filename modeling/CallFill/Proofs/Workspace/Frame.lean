import CallFill.Proofs.Editing.FillChanges
import CallFill.Proofs.Editing.FillTransaction
import CallFill.Proofs.Population.PlanText
import CallFill.Proofs.Workspace.Reachable

/-!
# What a population does to a workspace

A population fails only where no call is found, and then leaves the workspace as it was. Otherwise
it reports what it did. If the report says that nothing was changed, the workspace is as before;
else exactly the file of the call has a new text, which differs from the old one by the arguments in
the argument range of the call and at most one block of import lines (`Workspace.populate_frame`).

How the texts are read plays no part in this as long as every text of the workspace is read as a
tree without faults (`Workspace.ReadFaultlessly`). The grammar reads all texts so.
-/

namespace CallFill

open Source Text TextEdit

/-- A project finds names in its scopes under these names only. -/
theorem Project.findsByName_host (p : Project) : p.host.FindsByName := by
  intro name scope binding h
  obtain ⟨found, _, rfl⟩ := Option.map_eq_some_iff.1 h
  rfl

namespace Project

variable {p : Project} {file : FileId} {m : SourceModule}

/-- The line imports a symbol that the file cannot name without it. -/
def Needed (p : Project) (file : FileId) (m : SourceModule) (line : String) : Prop :=
  ∃ id symbol, p.symbols.get? id = some symbol ∧ p.isNameable file m id symbol = false ∧
    line = importLine symbol

/-- Every line that a population adds imports a symbol that the file needs it for. -/
theorem needed_of_mem_importLines (p : Project) (file : FileId) (m : SourceModule)
    (symbols : List SymbolId) :
    ∀ line ∈ p.importLines file m symbols, p.Needed file m line := by
  intro line hline
  obtain ⟨id, _, symbol, hneeded⟩ := mem_importLines.1 hline
  exact ⟨id, symbol, hneeded⟩

/-- A line of imports begins with a letter. -/
theorem Needed.toList_eq {line : String} (h : p.Needed file m line) :
    ∃ rest, line.toList = 'f' :: rest := by
  obtain ⟨_, symbol, _, _, rfl⟩ := h
  rw [importLine, String.toList_append, String.toList_append, String.toList_append,
    List.append_assoc, List.append_assoc]
  exact ⟨_, rfl⟩

end Project

namespace Workspace

variable {w : Workspace} {c : CallRecord} {path : String} {offset : Nat}

/-- What filling a call can do to a workspace, with the report about it. -/
inductive Outcome (w : Workspace) (c : CallRecord) : Report → Workspace → Prop where
  /-- Nothing was changed, and the report says so. -/
  | unchanged {report : Report} (hreport : report.changed = false) : Outcome w c report w
  /-- The file of the call has another text. -/
  | filled {report : Report} {m : SourceModule} {lines : List String} {new : String}
      (hreport : report.changed = true)
      (hfile : w.project.file? c.site.file = some m)
      (hsource : w.source? m.path = some m.text)
      (hlines : ∀ line ∈ lines, w.project.Needed c.site.file m line)
      (hspliced : Spliced 0 m.text.toList (c.fillEdits m report.arguments lines) new.toList)
      (happart : (c.fillEdits m report.arguments lines).Pairwise fun a b => a.stop < b.start)
      (hchanged : new ≠ m.text)
      (hothers : ∀ path ≠ m.path, (w.write [(m.path, new)]).source? path = w.source? path) :
      Outcome w c report (w.write [(m.path, new)])

/-! ## Reading the texts -/

/-- Every text is read as the tree of a text without a syntax error. -/
def ReadFaultlessly (w : Workspace) : Prop :=
  ∀ path text, (path, text) ∈ w.sources → (w.read text.toList).Faultless text.toList

/-- Between the parentheses of a call without arguments no token stands but commas. -/
theorem ReadFaultlessly.readWith (h : w.ReadFaultlessly) :
    Project.ReadWith w.read IsVacantBetween (fun _ _ _ => True) w.sources :=
  fun path text hsource => (h path text hsource).lies

/-- The grammar reads every text faultlessly. -/
theorem readFaultlessly_of_parse (h : w.read = parse) : w.ReadFaultlessly := by
  intro path text _
  rw [h]
  exact faultless_parse text.toList

/-! ## Finding the call -/

/-- The call at an offset is one of the project. -/
theorem mem_calls_of_locate (h : w.locate path offset = .ok c) : c ∈ w.project.calls := by
  rw [locate] at h
  split at h
  · exact absurd h (by simp)
  · split at h
    · exact absurd h (by simp)
    · next found hfound =>
        rw [← Except.ok.inj h]
        exact (List.mem_filter.1 (Codebase.of_shortest hfound).1).1

/-- No call is found where the file is unknown, or at an offset outside of all calls. -/
theorem error_of_locate {e : Error} (h : w.locate path offset = .error e) :
    e = .unknownFile path ∨ e = .noCallAt path offset := by
  rw [locate] at h
  split at h
  · exact Or.inl (Except.error.inj h).symm
  · split at h
    · exact Or.inr (Except.error.inj h).symm
    · exact absurd h (by simp)

/-! ## Filling the call -/

/-- A text is read where it was written. -/
theorem source?_write_self (w : Workspace) (path text : String) :
    (w.write [(path, text)]).source? path = some text := by
  show KeyedList.get? (KeyedList.put w.sources path text) path = _
  rw [KeyedList.get?_put, if_pos rfl]

/-- Writing one text leaves all others. -/
theorem source?_write_of_ne {text other : String} (h : other ≠ path) :
    (w.write [(path, text)]).source? other = w.source? other := by
  show KeyedList.get? (KeyedList.put w.sources path text) other = _
  rw [KeyedList.get?_put, if_neg (Ne.symm h)]
  rfl

/-- A document of one file is committed at the path of the file. -/
theorem committed_singleton {file : FileId} {m : SourceModule} (h : w.project.file? file = some m)
    (new : String) : w.committed { documents := [(file, new)] } = [(m.path, new)] := by
  rw [committed, List.filterMap_cons]
  dsimp only
  rw [h]
  rfl

/-- Filling a call of a workspace for some missing parameters. -/
theorem IsCurrent.outcome_populateMissing (h : w.IsCurrent) (hread : w.ReadFaultlessly)
    (hc : c ∈ w.project.calls) (missing : List Parameter) (o : Options) (sel : Selections) :
    ∃ report w', w.afterPopulation (w.project.host.populateMissing w.config w.project.editor c.site
      missing o sel {}) = (.ok report, w') ∧ w.Outcome c report w' := by
  rw [h.project_eq] at hc
  have hcall := Project.call?_of_mem hc
  obtain ⟨path, text, hsource, hfile, hplaced, hside⟩ :=
    Project.placed_of_mem_calls hread.readWith hc
  rw [← h.project_eq] at hcall hfile
  have hoffset : IsBoundary text.toList (SourceModule.ofText path text w.read).importOffset :=
    SourceModule.isBoundary_importOffset (hread path text hsource).lies path
  generalize hm : SourceModule.ofText path text w.read = m at hfile hside hoffset
  obtain ⟨rfl, rfl⟩ : m.path = path ∧ m.text = text := by
    rw [← hm]
    exact ⟨rfl, rfl⟩
  -- without a plan there is no transaction; with one, the transaction is shown to commit, so no
  -- error of the editor is left
  by_cases hplan : w.project.host.planFor w.config c.site missing o sel = []
  · rw [Host.populateMissing_of_nil hplan]
    exact ⟨_, w, rfl, Outcome.unchanged rfl⟩
  · obtain ⟨plan, hdef⟩ : ∃ plan, plan = w.project.host.planFor w.config c.site missing o sel :=
      ⟨_, rfl⟩
    have hnever := neverVacant_planText w.project.findsByName_host hplan
    have hequals := equals_mem_planText hplan
    rw [← hdef] at hplan hnever hequals
    have hneeded := Project.needed_of_mem_importLines w.project c.site.file m
      (plan.flatMap PlannedArgument.symbols)
    obtain ⟨result, hspliced, hmade, happart, hne⟩ :=
      CallRecord.exists_changed_fillEdits hplaced hoffset hside hnever hequals
        fun line hline => (hneeded line hline).toList_eq
    rw [Project.populateMissing_eq hfile hcall hdef.symm hplan hmade]
    refine ⟨w.project.host.filledReport c.site plan, w.write [(m.path, String.ofList result)], ?_,
      ?_⟩
    · show (_, w.write (w.committed { documents := [(c.site.file, String.ofList result)] })) = _
      rw [committed_singleton hfile]
    · refine Outcome.filled (w.project.host.changed_filledReport c.site hplan) hfile
        (h.source?_of_mem hsource) hneeded ?_ happart ?_ ?_
      · rw [String.toList_ofList]
        exact hspliced
      · intro hsame
        refine hne ?_
        rw [← hsame, String.toList_ofList]
      · exact fun other hother => source?_write_of_ne hother

/-- Filling a call of a workspace after asking about ambiguous unions. -/
theorem IsCurrent.outcome_run {τ : Type} (h : w.IsCurrent) (hread : w.ReadFaultlessly)
    (hc : c ∈ w.project.calls) (chooser : Chooser τ) (o : Options) (asked : τ) :
    ∃ report w', w.afterPopulation (w.project.host.run w.config w.project.editor chooser c.site o
      asked {}).1 = (.ok report, w') ∧ w.Outcome c report w' := by
  obtain ⟨missing, hmissing⟩ : ∃ missing, missing = w.project.host.missing c.site o := ⟨_, rfl⟩
  rw [Host.run, ← hmissing]
  by_cases hchoices : w.project.host.hasUnionChoices w.config missing = true
  · rw [if_pos hchoices]
    cases hcollected : w.project.host.collect w.config chooser missing asked with
    | mk answers asked' =>
        cases answers with
        | some sel => exact h.outcome_populateMissing hread hc missing o sel
        | none => exact ⟨_, w, rfl, Outcome.unchanged rfl⟩
  · rw [if_neg hchoices]
    exact h.outcome_populateMissing hread hc missing o []

/-- **The frame of a population.** Whatever reads the texts, as long as it reads those of the
workspace without a fault: filling a call fails only where no call is found, and then changes
nothing. Otherwise the text of the call's file, and nothing else, changes by the arguments and by
lines of imports, or nothing changes, as the report says. -/
theorem populate_frame (h : w.Reachable) (hread : w.ReadFaultlessly) (path : String) (offset : Nat)
    (o : Options) :
    (∃ e, w.locate path offset = .error e ∧ (e = .unknownFile path ∨ e = .noCallAt path offset) ∧
      (∀ sel, w.populateWith path offset o sel = (.error e, w)) ∧
      ∀ (τ : Type) (chooser : Chooser τ) (asked : τ),
        (w.populate path offset o chooser asked).1 = (.error e, w)) ∨
    ∃ c, w.locate path offset = .ok c ∧
      (∀ sel, ∃ report w', w.populateWith path offset o sel = (.ok report, w') ∧
        w.Outcome c report w') ∧
      ∀ (τ : Type) (chooser : Chooser τ) (asked : τ), ∃ report w',
        (w.populate path offset o chooser asked).1 = (.ok report, w') ∧
        w.Outcome c report w' := by
  cases hlocate : w.locate path offset with
  | error e =>
      refine Or.inl ⟨e, rfl, error_of_locate hlocate, ?_, ?_⟩
      · intro sel
        rw [populateWith, hlocate]
      · intro τ chooser asked
        rw [populate, hlocate]
  | ok c =>
      have hc := mem_calls_of_locate hlocate
      refine Or.inr ⟨c, rfl, ?_, ?_⟩
      · intro sel
        rw [populateWith, hlocate]
        exact h.isCurrent.outcome_populateMissing hread hc _ o sel
      · intro τ chooser asked
        rw [populate, hlocate]
        dsimp only
        exact h.isCurrent.outcome_run hread hc chooser o asked

/-- A file with a call that lacks an argument. -/
def oneCall : Workspace :=
  ofSources .default [("m.py", "def f(a): pass\nf()\n")]

/-- The call is found, and filling it gives it the argument. -/
theorem populate_frame_oneCall :
    oneCall.Reachable ∧ oneCall.ReadFaultlessly ∧
    (∃ c, oneCall.locate "m.py" 16 = .ok c ∧ ∀ sel, ∃ report w',
      oneCall.populateWith "m.py" 16 {} sel = (.ok report, w') ∧ oneCall.Outcome c report w') ∧
    (oneCall.populateWith "m.py" 16 {} []).2.source? "m.py" =
      some "def f(a): pass\nf(a=...)\n" := by
  have hreachable : oneCall.Reachable := Reachable.ofSources _ _ _
  have hread : oneCall.ReadFaultlessly := readFaultlessly_of_parse rfl
  refine ⟨hreachable, hread, ?_, by decide +kernel⟩
  rcases populate_frame hreachable hread "m.py" 16 {} with ⟨e, hlocate, _⟩ | ⟨c, hlocate, hfill, _⟩
  · have hfound : (oneCall.locate "m.py" 16).toOption.isSome = true := by decide +kernel
    rw [hlocate] at hfound
    exact absurd hfound Bool.false_ne_true
  · exact ⟨c, hlocate, hfill⟩

end Workspace

end CallFill
