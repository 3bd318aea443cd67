import CallFill.Proofs.Editing.WholeCall
import CallFill.Proofs.Workspace.Frame

/-!
# Previews

A preview promises the text of a call as filling it would leave it. It keeps the promise wherever
the text that it renders is the text of the file in which the call was found
(`Workspace.preview_shows_population`). The two can differ: files are found by their paths in any
spelling, but a preview reads its text at the path as it is spelled, and another spelling of a path
has no text, or one of its own (`Workspace.preview_of_other_spelling`).
-/

namespace CallFill

open Text TextEdit

/-- The report of a population tells the texts of its plan. -/
theorem Host.arguments_of_populateMissing {h : Host} {c : Config} {σ : Type} {e : Editor σ}
    {call : CallSite} {missing : List Parameter} {o : Options} {sel : Selections} {s : σ}
    {report : Report} (hreport : (h.populateMissing c e call missing o sel s).1 = .ok report) :
    report.stage = .done ∧
      report.arguments = (h.planFor c call missing o sel).map PlannedArgument.text := by
  by_cases hplan : h.planFor c call missing o sel = []
  · rw [populateMissing_of_nil hplan] at hreport
    rw [← Except.ok.inj hreport, hplan]
    exact ⟨rfl, rfl⟩
  · cases htransact : e.transact (edits call (h.planFor c call missing o sel)) s with
    | mk result s' =>
        rw [populateMissing_of_transact rfl hplan htransact] at hreport
        cases result with
        | error err => exact nomatch hreport
        | ok u =>
            rw [← Except.ok.inj hreport]
            exact ⟨rfl, rfl⟩

namespace Workspace

variable {w w' : Workspace} {c : CallRecord} {m : SourceModule} {path shown : String}
  {offset : Nat} {o : Options} {sel : Selections}

/-- The file of a call has a new text, in which the old call has made room for a text and nothing
else has changed but for import lines. The text stands where the call stood, moved by the import
lines if they go before it. -/
def ShowsCall (w' : Workspace) (c : CallRecord) (m : SourceModule) (shown : String) : Prop :=
  ∃ lines new, w'.source? m.path = some new ∧
    Spliced 0 m.text.toList (c.wholeEdits m shown lines) new.toList ∧
    Holds new.toList (c.start + c.shift m lines)
      (c.start + c.shift m lines + byteLength shown.toList) shown.toList

/-- The result of a population is reported whatever is written. -/
theorem afterPopulation_fst (result : Except Error Report × Stage × EditorState) :
    (w.afterPopulation result).1 = result.1 := by
  obtain ⟨report, stage, s⟩ := result
  cases report <;> rfl

/-- Putting the text of a call in its own place changes nothing. -/
theorem spliced_self {text : List Char} {piece : List Char}
    (hpiece : Holds text c.start c.stop piece) :
    Spliced 0 text [c.wholeEdit (String.ofList piece)] text := by
  obtain ⟨before, after, rfl, hstart, hstop⟩ := hpiece
  have hsame : Spliced 0 (before ++ (piece ++ after)) [c.wholeEdit (String.ofList piece)]
      (before ++ ((String.ofList piece).toList ++ after)) := by
    refine Spliced.edited ?_ hstop.symm (Spliced.kept _ after)
    rw [Nat.zero_add]
    exact hstart.symm
  rw [String.toList_ofList] at hsame
  exact hsame

/-- What filling a call leaves shows the call with the arguments of the report. -/
theorem IsCurrent.showsCall_of_outcome (h : w.IsCurrent) (hread : w.ReadFaultlessly)
    (hc : c ∈ w.project.calls)
    (hfile : w.project.file? c.site.file = some m) {report : Report}
    (hstage : report.stage = .done) (houtcome : w.Outcome c report w') :
    w'.ShowsCall c m (renderCall m.text.toList c report.arguments) := by
  have hcalls := hc
  have hmodule := hfile
  rw [h.project_eq] at hcalls hmodule
  obtain ⟨hstart, hstop⟩ := Project.isBoundary_of_mem_calls hread.readWith hcalls hmodule
  obtain ⟨path, text, hsource, hfound, hplaced, hside⟩ :=
    Project.placed_of_mem_calls hread.readWith hcalls
  obtain rfl := Option.some.inj (hfound.symm.trans hmodule)
  -- a population that is done has changed the text exactly if it wrote arguments
  have hchanged : report.changed = !report.arguments.isEmpty := by
    rw [Report.changed, hstage]
    rfl
  cases houtcome with
  | unchanged hreport =>
      rw [hchanged, Bool.not_eq_false', List.isEmpty_iff] at hreport
      have hle : c.start ≤ c.stop := by
        have hbefore := hplaced.start_le
        have hbehind := hplaced.close_lt_stop
        have hlt := hplaced.open_lt_close
        omega
      obtain ⟨piece, hpiece⟩ := exists_holds hstart hstop hle
      have hrendered : renderCall text.toList c report.arguments = String.ofList piece := by
        rw [hreport, ← hpiece.slice_eq]
        rfl
      have hspliced : Spliced 0 text.toList (c.wholeEdits (SourceModule.ofText path text w.read)
          (String.ofList piece) []) text.toList := spliced_self hpiece
      show w.ShowsCall c _ (renderCall text.toList c report.arguments)
      rw [hrendered]
      exact ⟨[], text, h.source?_of_mem hsource, hspliced,
        CallRecord.holds_wholeEdits hspliced⟩
  | @filled m' lines new hreport hfile' hsource' hlines hspliced happart hnew hothers =>
      obtain rfl := Option.some.inj (hfile.symm.trans hfile')
      have hne : report.arguments ≠ [] := by
        rintro hnil
        rw [hchanged, hnil] at hreport
        exact nomatch hreport
      have hwhole := CallRecord.spliced_wholeEdits hplaced hstart hstop hside hne hspliced
      exact ⟨lines, new, source?_write_self w _ new, hwhole, CallRecord.holds_wholeEdits hwhole⟩

/-- Where there is a preview, the call can be filled, and where the preview reads the text of the
file in which the call was found, it is the text of the call as filling it leaves it. -/
theorem preview_shows_population (h : w.Reachable) (hread : w.ReadFaultlessly)
    (hpreview : w.preview path offset o sel = .ok shown) :
    ∃ c m report w', w.locate path offset = .ok c ∧ w.project.file? c.site.file = some m ∧
      w.populateWith path offset o sel = (.ok report, w') ∧
      (w.source? path = some m.text → w'.ShowsCall c m shown) := by
  rw [preview] at hpreview
  rw [populateWith]
  cases hlocate : w.locate path offset with
  | error e =>
      rw [hlocate] at hpreview
      cases hpreview
  | ok c =>
      rw [hlocate] at hpreview
      have hc := mem_calls_of_locate hlocate
      have hcalls := hc
      rw [h.isCurrent.project_eq] at hcalls
      obtain ⟨path', text, _, hfile, _⟩ := Project.exists_def_of_mem_calls hcalls
      rw [← h.isCurrent.project_eq] at hfile
      obtain ⟨report, w', hresult, houtcome⟩ :=
        h.isCurrent.outcome_populateMissing hread hc (w.project.host.missing c.site o) o sel
      have hreport := congrArg Prod.fst hresult
      rw [afterPopulation_fst] at hreport
      obtain ⟨hstage, harguments⟩ := Host.arguments_of_populateMissing hreport
      refine ⟨c, _, report, w', rfl, hfile, hresult, ?_⟩
      intro hsource
      have hshown : renderCall text.toList c report.arguments = shown := by
        rw [← Except.ok.inj hpreview, hsource, harguments]
        rfl
      rw [← hshown]
      exact h.isCurrent.showsCall_of_outcome hread hc hfile hstage houtcome

/-- In another spelling of its path the file has no text for the preview, which leaves out what
stands around the arguments; the population writes it all. -/
theorem preview_of_other_spelling :
    oneCall.preview "m.py" 16 {} [] = .ok "f(a=...)" ∧
    oneCall.preview "./m.py" 16 {} [] = .ok "a=..." ∧
    (oneCall.populateWith "./m.py" 16 {} []).2.source? "m.py" =
      some "def f(a): pass\nf(a=...)\n" := by
  decide +kernel

end Workspace

end CallFill
