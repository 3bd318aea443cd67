import CallFill.Proofs.Editing.FillTransaction
import CallFill.Proofs.Editing.WholeCall

/-!
# Rendering a call and editing it

More arguments reach a call in two ways: `renderCall` writes the text of the call with them, and an
editor puts them between the parentheses of the call in its file. Each works out by itself what is
kept and what separates the arguments. On every record of a call whose offsets are in order and
between characters the two agree: where the editor commits, what it leaves in the place of the call
is what is rendered (`Project.renderCall_eq_committed`). It commits unless the call has no arguments
and the place of the first one is inside of a character. Nothing else is asked of the record, and
every record is that of a call in some project (`Project.exists_project`).
-/

namespace CallFill

open Text

namespace TextEdit

variable {cs result : List Char} {text new : String} {e : TextEdit}

/-- An edit that is made starts between characters. -/
theorem isBoundary_of_applyAll (h : applyAll text [e] = .ok new) :
    IsBoundary text.toList e.start := by
  cases hcut : splitAt? e.start text.toList with
  | some cut =>
      obtain ⟨htext, hlength⟩ := splitAt?_eq_some_iff.1 hcut
      exact ⟨cut.1, cut.2, htext, hlength⟩
  | none =>
      have hsplice : splice? text.toList e.start e.stop e.text.toList = none := by
        rw [splice?, hcut]
        exact ite_self none
      have hmade : applyInOrder text.toList [e] =
          .error (.rejected (.outsideDocument e.start e.stop)) := by
        show (apply text.toList e >>= fun cs => pure cs) = _
        rw [apply, hsplice]
        rfl
      rw [applyAll_of_pairwise (List.pairwise_singleton _ e), hmade] at h
      cases h

/-- One edit that fits a text is made. -/
theorem Fits.applyAll_eq (h : e.Fits text.toList) :
    ∃ result, Spliced 0 text.toList [e] result ∧
      applyAll text [e] = .ok (String.ofList result) := by
  have hfits : ∀ f ∈ [e], f.Fits ([] ++ text.toList) := by
    intro f hf
    rw [List.mem_singleton.1 hf]
    exact h
  obtain ⟨result, hresult⟩ := exists_spliced [] hfits (fun _ _ => Nat.zero_le _)
    (List.pairwise_singleton _ e)
  exact ⟨result, hresult, hresult.applyAll_eq (List.pairwise_singleton _ e) (List.Perm.refl _)⟩

/-- After one edit its text stands where the edited piece stood, up to where this ended, moved by
how much the whole text has grown. -/
theorem Spliced.slice?_eq (h : Spliced 0 cs [e] result) :
    slice? result e.start (e.stop + byteLength result - byteLength cs) = some e.text.toList := by
  obtain ⟨before, cut, rest, next, rfl, hstart, hstop, rfl, hrest⟩ := h.of_cons
  obtain rfl := hrest.eq_of_nil
  refine slice?_eq_some_iff.2 ⟨before, next, rfl, by omega, ?_⟩
  simp only [byteLength_append]
  omega

end TextEdit

open TextEdit

/-- The edit of the arguments comes to putting the rendered call in the place of the call. -/
theorem CallRecord.spliced_wholeEdit {c : CallRecord} {text result : List Char}
    {arguments : List String} (hspans : c.Spans text) (hopens : c.OpensBetween text)
    (hstart : IsBoundary text c.start) (hstop : IsBoundary text c.stop) (hne : arguments ≠ [])
    (h : Spliced 0 text [c.argumentEdit text arguments] result) :
    Spliced 0 text [c.wholeEdit (Workspace.renderCall text c arguments)] result := by
  obtain ⟨hopen, hclose, hfits⟩ := argumentEdit_within hspans hopens arguments
  have hbefore := hspans.start_le
  have hbehind := hspans.close_lt_stop
  obtain ⟨head, hhead⟩ := exists_holds hstart hfits.start_isBoundary (by omega)
  obtain ⟨tail, htail⟩ := exists_holds hfits.stop_isBoundary hstop (by omega)
  rw [renderCall_eq hspans hopens hne hhead htail]
  exact Spliced.widen [] [] h rfl hhead htail (by simp) (Nat.zero_le _) (by simp)

namespace Project

variable {p : Project} {c : CallRecord} {m : SourceModule} {plan : List PlannedArgument}
  {t : PendingEdits} {file : FileId} {e : TextEdit} {err : Error}

/-- A transaction with one edit leaves the edited text, or the error of the edit. -/
theorem editedTexts_of_singleton (hm : p.file? file = some m)
    (hedits : p.editsOf t = .ok [(file, e)]) :
    p.editedTexts [] t = (applyAll m.text [e]).map fun new => [(file, new)] := by
  have htext : p.editedText [] file [e] = applyAll m.text [e] := by
    rw [editedText, moduleOf_eq_ok_iff.2 hm]
    rfl
  have hfiles : dedupBy id ([(file, e)].map (·.1)) = [file] := rfl
  have hown : ([(file, e)].filter fun other => other.1 = file).map (·.2) = [e] := by simp
  rw [editedTexts, hedits]
  dsimp only [bind, Except.bind]
  rw [hfiles, List.mapM_cons, List.mapM_nil, hown, htext]
  cases applyAll m.text [e] <;> rfl

/-- Arguments that need no imports come to one edit: the transaction leaves the edited text, or
nothing and the error of the edit. -/
theorem transact_arguments (hc : p.call? c.site.id = some c) (hm : p.file? c.site.file = some m)
    (hplan : plan ≠ []) (hbare : plan.flatMap PlannedArgument.symbols = []) :
    p.editor.transact (Host.edits c.site plan) {} =
      match applyAll m.text [c.argumentEdit m.text.toList (plan.map PlannedArgument.text)] with
      | .ok new => (.ok (), { documents := [(c.site.file, new)] })
      | .error err => (.error err, {}) := by
  have hbegin : p.editor.begin {} = (.ok (), ⟨some {}, []⟩) := rfl
  have hnoted : p.editor.editAll (Host.edits c.site plan) ⟨some {}, []⟩ =
      (.ok (), ⟨some (filling c.site plan
        (p.importLines c.site.file m (plan.flatMap PlannedArgument.symbols))), []⟩) :=
    editAll_edits hm hplan
  rw [hbare] at hnoted
  have hedits : p.editsOf (filling c.site plan []) = .ok
      [(c.site.file, c.argumentEdit m.text.toList (plan.map PlannedArgument.text))] :=
    editsOf_filling hm hc
  have htexts := editedTexts_of_singleton hm hedits
  cases hmade : applyAll m.text
      [c.argumentEdit m.text.toList (plan.map PlannedArgument.text)] with
  | ok new =>
      rw [hmade] at htexts
      exact Editor.transact_eq hbegin hnoted (commitEdits_of_editedTexts htexts)
  | error err =>
      rw [hmade] at htexts
      have hcommit : p.commitEdits ⟨some (filling c.site plan []), []⟩ = (.error err, {}) := by
        rw [commitEdits]
        dsimp only
        rw [htexts]
        rfl
      exact Editor.transact_of_commit_error hbegin hnoted hcommit

/-- Any record and any module are those of a call and its file in some project. -/
theorem exists_project (c : CallRecord) (m : SourceModule) :
    ∃ p : Project, p.call? c.site.id = some c ∧ p.file? c.site.file = some m := by
  let files := List.replicate (c.site.file.index + 1) m
  let calls := List.replicate (c.site.id.index + 1) c
  refine ⟨{ ofSources .default [] with files, calls }, ?_, ?_⟩
  · show (List.replicate (c.site.id.index + 1) c)[c.site.id.index]? = some c
    rw [List.getElem?_replicate, if_pos (Nat.lt_succ_self _)]
  · show (List.replicate (c.site.file.index + 1) m)[c.site.file.index]? = some m
    rw [List.getElem?_replicate, if_pos (Nat.lt_succ_self _)]

/-- **The two ways to write arguments agree**, for every record of a call with its offsets in order
and between characters, and all arguments that need no imports. The editor commits them unless the
call has none yet and the place of the first is inside of a character; and what it leaves from the
start of the call to its end, as far as this has moved, is the rendered call. -/
theorem renderCall_eq_committed (hc : p.call? c.site.id = some c)
    (hm : p.file? c.site.file = some m) (hspans : c.Spans m.text.toList)
    (hstart : IsBoundary m.text.toList c.start) (hstop : IsBoundary m.text.toList c.stop)
    (hplan : plan ≠ []) (hbare : plan.flatMap PlannedArgument.symbols = []) :
    ∃ result s, p.editor.transact (Host.edits c.site plan) {} = (result, s) ∧
      (result = .ok () ↔ c.OpensBetween m.text.toList) ∧
      (result = .ok () → ∃ new, KeyedList.get? s.documents c.site.file = some new ∧
        slice? new.toList c.start
            (c.stop + byteLength new.toList - byteLength m.text.toList) =
          some (Workspace.renderCall m.text.toList c
            (plan.map PlannedArgument.text)).toList) := by
  have htransact := transact_arguments hc hm hplan hbare
  by_cases hopens : c.OpensBetween m.text.toList
  · obtain ⟨_, _, hfits⟩ :=
      CallRecord.argumentEdit_within hspans hopens (plan.map PlannedArgument.text)
    obtain ⟨result, hspliced, hmade⟩ := hfits.applyAll_eq
    rw [hmade] at htransact
    refine ⟨_, _, htransact, iff_of_true rfl hopens, fun _ => ?_⟩
    refine ⟨String.ofList result, ?_, ?_⟩
    · rw [KeyedList.get?, if_pos rfl]
    · have hwhole := CallRecord.spliced_wholeEdit hspans hopens hstart hstop
        (List.map_eq_nil_iff.not.2 hplan) hspliced
      rw [String.toList_ofList]
      exact hwhole.slice?_eq
  · -- only what stands between the parentheses can be cut inside of a character
    obtain ⟨hcount, hinside⟩ := Classical.not_imp.1 hopens
    cases hmade : applyAll m.text
        [c.argumentEdit m.text.toList (plan.map PlannedArgument.text)] with
    | ok new =>
        have hboundary := isBoundary_of_applyAll hmade
        rw [CallRecord.argumentEdit, if_pos hcount] at hboundary
        exact absurd hboundary hinside
    | error err =>
        rw [hmade] at htransact
        have hfailed : (.error err : Except Error Unit) ≠ .ok () := by simp
        exact ⟨_, _, htransact, iff_of_false hfailed hopens, fun h => absurd h hfailed⟩

/-- A call with a trailing comma behind a character of two bytes. -/
def commaCall : CallRecord where
  site := { id := ⟨0⟩, file := ⟨0⟩, scope := ⟨0⟩, callee := "f", positional := 1, keywords := [],
            unpacking := 0 }
  start := 0
  stop := 7
  openParen := 1
  closeParen := 6
  lastArgumentEnd := some 4
  enclosingClass := none

/-- The comma and the blank behind it go, and the new argument comes with a comma of its own. -/
theorem renderCall_eq_committed_comma :
    ∃ (p : Project) (m : SourceModule),
      p.call? ⟨0⟩ = some commaCall ∧ p.file? ⟨0⟩ = some m ∧ m.text = "f(é, )\n" ∧
      commaCall.Spans m.text.toList ∧ IsBoundary m.text.toList commaCall.start ∧
      IsBoundary m.text.toList commaCall.stop ∧
      ∃ (s : EditorState) (new : String),
        p.editor.transact (Host.edits commaCall.site [⟨"b", "2", []⟩]) {} = (.ok (), s) ∧
        KeyedList.get? s.documents ⟨0⟩ = some new ∧
        slice? new.toList 0 (7 + byteLength new.toList - 8) = some "f(é, b=2)".toList := by
  have hc : (ofSources .default [("m.py", "f(é, )\n")]).call? ⟨0⟩ = some commaCall := by
    decide +kernel
  obtain ⟨m, hm, htext⟩ : ∃ m, (ofSources .default [("m.py", "f(é, )\n")]).file? ⟨0⟩ = some m ∧
      m.text = "f(é, )\n" := by
    refine ⟨SourceModule.ofText "m.py" "f(é, )\n", ?_, SourceModule.text_ofText _ _ _⟩
    rw [Codebase.file?, files_ofSources]
    rfl
  have hspans : commaCall.Spans m.text.toList := by
    rw [htext]
    refine ⟨by decide, by decide, by decide, ⟨['f'], "(é, )\n".toList, rfl, rfl⟩,
      ⟨"f(é, ".toList, ")\n".toList, rfl, by decide⟩, ?_, fun _ => ⟨4, rfl⟩⟩
    intro n hn
    obtain rfl := Option.some.inj hn
    exact ⟨⟨"f(é".toList, ", )\n".toList, rfl, by decide⟩, by decide, by decide⟩
  have hstart : IsBoundary m.text.toList commaCall.start := isBoundary_zero _
  have hstop : IsBoundary m.text.toList commaCall.stop := by
    rw [htext]
    exact ⟨"f(é, )".toList, ['\n'], rfl, by decide⟩
  have hrendered : Workspace.renderCall "f(é, )\n".toList commaCall
      ([⟨"b", "2", []⟩].map PlannedArgument.text) = "f(é, b=2)" := by decide +kernel
  have hne : [(⟨"b", "2", []⟩ : PlannedArgument)] ≠ [] := List.cons_ne_nil _ _
  obtain ⟨result, s, htransact, hok, hnew⟩ :=
    renderCall_eq_committed (c := commaCall) hc hm hspans hstart hstop hne rfl
  obtain rfl := hok.2 fun hcount => absurd hcount (by decide)
  obtain ⟨new, hdocument, hslice⟩ := hnew rfl
  rw [htext, hrendered] at hslice
  exact ⟨_, m, hc, hm, htext, hspans, hstart, hstop, s, new, htransact, hdocument, hslice⟩

end Project

end CallFill
