import CallFill.Population
import CallFill.Proofs.Editing.Commit

/-!
# The transaction that fills a call

The edits of a plan are all noted, and the commit carries them out: of a call that the project
knows, in a file that it knows, the arguments of the plan and the import lines that the symbols of
the plan need in the file. None of the requests can fail, so the transaction fails only if the texts
of the edits cannot be put together.
-/

namespace CallFill

open Text TextEdit

namespace Project

variable (p : Project)

/-- Import lines of a file and the line that a symbol needs there, unless the file can name the
symbol or the line is there already. -/
def addImportLine (file : FileId) (m : SourceModule) (lines : List String) (symbol : SymbolId) :
    List String :=
  match p.symbols.get? symbol with
  | none => lines
  | some s =>
    if p.isNameable file m symbol s then lines
    else if lines.contains (importLine s) then lines
    else lines ++ [importLine s]

/-- The import lines that symbols need in a file. -/
def importLines (file : FileId) (m : SourceModule) (symbols : List SymbolId) : List String :=
  symbols.foldl (p.addImportLine file m) []

/-- The lines of one file as an open transaction has them. -/
def noted (file : FileId) (lines : List String) : KeyedList FileId (List String) :=
  if lines = [] then [] else [(file, lines)]

variable {p} {file : FileId} {m : SourceModule} {c : CallRecord} {plan : List PlannedArgument}
  {replaced : KeyedList CallId String} {appended : KeyedList CallId (List String)}
  {documents : KeyedList FileId String} {lines : List String}

/-! ## Import lines -/

/-- A symbol adds its import line exactly where the file cannot name it without. -/
theorem mem_addImportLine {line : String} {id : SymbolId} :
    line ∈ p.addImportLine file m lines id ↔ line ∈ lines ∨ ∃ symbol,
      p.symbols.get? id = some symbol ∧ p.isNameable file m id symbol = false ∧
        line = importLine symbol := by
  rw [addImportLine]
  cases hsymbol : p.symbols.get? id with
  | none => simp
  | some symbol =>
      dsimp only
      cases hnameable : p.isNameable file m id symbol with
      | true => simp [hnameable]
      | false =>
          rw [if_neg Bool.false_ne_true]
          by_cases hline : lines.contains (importLine symbol) = true
          · rw [if_pos hline]
            have hmem : importLine symbol ∈ lines := by simpa using hline
            constructor
            · exact Or.inl
            · rintro (h | ⟨found, hfound, _, rfl⟩)
              · exact h
              · rw [← Option.some.inj hfound]
                exact hmem
          · rw [if_neg hline, List.mem_append, List.mem_singleton]
            constructor
            · rintro (h | rfl)
              · exact Or.inl h
              · exact Or.inr ⟨symbol, rfl, hnameable, rfl⟩
            · rintro (h | ⟨found, hfound, _, rfl⟩)
              · exact Or.inl h
              · exact Or.inr (by rw [Option.some.inj hfound])

/-- The import lines of a file are those of the symbols that it cannot name without. -/
theorem mem_importLines {line : String} {symbols : List SymbolId} :
    line ∈ p.importLines file m symbols ↔ ∃ id ∈ symbols, ∃ symbol,
      p.symbols.get? id = some symbol ∧ p.isNameable file m id symbol = false ∧
        line = importLine symbol := by
  have hrun : ∀ lines, line ∈ symbols.foldl (p.addImportLine file m) lines ↔ line ∈ lines ∨
      ∃ id ∈ symbols, ∃ symbol, p.symbols.get? id = some symbol ∧
        p.isNameable file m id symbol = false ∧ line = importLine symbol := by
    induction symbols with
    | nil => simp
    | cons id symbols ih =>
        intro lines
        rw [List.foldl_cons, ih, mem_addImportLine, or_assoc]
        simp only [List.mem_cons, exists_eq_or_imp]
  rw [importLines, hrun []]
  simp

/-! ## What is noted -/

theorem get?_noted (file : FileId) (lines : List String) :
    (KeyedList.get? (noted file lines) file).getD [] = lines := by
  rw [noted]
  split
  · next hnil => exact hnil.symm
  · rw [KeyedList.get?, if_pos rfl]
    rfl

theorem put_noted (file : FileId) (lines : List String) {more : List String} (hne : more ≠ []) :
    KeyedList.put (noted file lines) file more = noted file more := by
  rw [noted, noted, if_neg hne]
  split
  · rfl
  · rw [KeyedList.put, if_pos rfl]

/-- Making a symbol importable notes at most the line that imports it. -/
theorem noteEdit_ensureImported (hm : p.file? file = some m) (anchor : String)
    (symbol : SymbolId) :
    p.noteEdit (.ensureImported file anchor symbol)
        ⟨some ⟨replaced, appended, noted file lines⟩, documents⟩ =
      (.ok (), ⟨some ⟨replaced, appended, noted file (p.addImportLine file m lines symbol)⟩,
        documents⟩) := by
  rw [noteEdit, moduleOf_eq_ok_iff.2 hm, addImportLine]
  dsimp only
  cases p.symbols.get? symbol with
  | none => rfl
  | some s =>
      dsimp only
      by_cases hnameable : p.isNameable file m symbol s = true
      · rw [if_pos hnameable, if_pos hnameable]
      · rw [if_neg hnameable, if_neg hnameable, amend]
        dsimp only
        rw [get?_noted]
        by_cases hline : lines.contains (importLine s) = true
        · rw [if_pos hline]
          rw [put_noted file lines (by rintro rfl; exact absurd hline (by simp))]
        · rw [if_neg hline, put_noted file lines (by simp)]

/-- Making symbols importable notes the lines that they need. -/
theorem editAll_ensureImported (hm : p.file? file = some m) (needs : List (String × SymbolId))
    (lines : List String) :
    p.editor.editAll (needs.map fun need => .ensureImported file need.1 need.2)
        ⟨some ⟨replaced, appended, noted file lines⟩, documents⟩ =
      (.ok (), ⟨some ⟨replaced, appended,
        noted file ((needs.map Prod.snd).foldl (p.addImportLine file m) lines)⟩, documents⟩) := by
  induction needs generalizing lines with
  | nil => rfl
  | cons need needs ih =>
      exact (Editor.editAll_cons (noteEdit_ensureImported hm need.1 need.2)).trans (ih _)

/-- Appending arguments to a call notes them in order. -/
theorem editAll_append_arguments (call : CallSite) (arguments : List String) :
    p.editor.editAll (plan.map fun a => .append call a.name a.value)
        ⟨some ⟨replaced, [(call.id, arguments)], []⟩, documents⟩ =
      (.ok (), ⟨some ⟨replaced, [(call.id, arguments ++ plan.map PlannedArgument.text)], []⟩,
        documents⟩) := by
  induction plan generalizing arguments with
  | nil => rw [List.map_nil, List.map_nil, List.append_nil, Editor.editAll]
  | cons a plan ih =>
      have hstep : p.noteEdit (.append call a.name a.value)
          ⟨some ⟨replaced, [(call.id, arguments)], []⟩, documents⟩ =
          (.ok (), ⟨some ⟨replaced, [(call.id, arguments ++ [a.text])], []⟩, documents⟩) := by
        rw [noteEdit, amend]
        dsimp only
        rw [KeyedList.get?, if_pos rfl, KeyedList.put, if_pos rfl]
        rfl
      refine (Editor.editAll_cons hstep).trans ((ih _).trans ?_)
      rw [List.append_assoc]
      rfl

/-- What an open transaction has noted once a plan's arguments and import lines have been asked
for. -/
def filling (call : CallSite) (plan : List PlannedArgument) (lines : List String) :
    PendingEdits :=
  if call.argumentCount = 0 then ⟨[(call.id, planText plan)], [], noted call.file lines⟩
  else ⟨[], [(call.id, plan.map PlannedArgument.text)], noted call.file lines⟩

theorem editAll_arguments (call : CallSite) (hplan : plan ≠ []) :
    p.editor.editAll
        (if call.argumentCount = 0 then [.replace call (planText plan)]
          else plan.map fun a => .append call a.name a.value) ⟨some {}, documents⟩ =
      (.ok (), ⟨some (filling call plan []), documents⟩) := by
  rw [filling]
  by_cases hcount : call.argumentCount = 0
  · rw [if_pos hcount, if_pos hcount]
    rfl
  · rw [if_neg hcount, if_neg hcount]
    cases plan with
    | nil => exact absurd rfl hplan
    | cons a plan => exact editAll_append_arguments call [a.text]

/-- All edits of a plan can be asked for. -/
theorem editAll_edits {call : CallSite} (hm : p.file? call.file = some m) (hplan : plan ≠ []) :
    p.editor.editAll (Host.edits call plan) ⟨some {}, documents⟩ =
      (.ok (), ⟨some (filling call plan
        (p.importLines call.file m (plan.flatMap PlannedArgument.symbols))), documents⟩) := by
  -- the requests for imports are one list, in the order of the arguments and of their symbols
  have hneeds : (plan.flatMap fun a => a.symbols.map fun symbol =>
        Edit.ensureImported call.file a.text symbol) =
      (plan.flatMap fun a => a.symbols.map fun symbol => (a.text, symbol)).map fun need =>
        Edit.ensureImported call.file need.1 need.2 := by
    rw [List.map_flatMap]
    simp only [List.map_map]
    rfl
  have hsymbols : (plan.flatMap fun a => a.symbols.map fun symbol => (a.text, symbol)).map
      Prod.snd = plan.flatMap PlannedArgument.symbols := by
    rw [List.map_flatMap]
    simp only [List.map_map]
    refine List.flatMap_congr fun a _ => ?_
    exact List.map_id' _
  rw [Host.edits, Editor.editAll_append (editAll_arguments call hplan), hneeds, importLines,
    ← hsymbols, filling, filling]
  by_cases hcount : call.argumentCount = 0
  · rw [if_pos hcount, if_pos hcount]
    exact editAll_ensureImported hm _ []
  · rw [if_neg hcount, if_neg hcount]
    exact editAll_ensureImported hm _ []

/-! ## What is committed -/

/-- The edits of one call are all edits of its file. -/
theorem editsOf_filling (hm : p.file? c.site.file = some m) (hc : p.call? c.site.id = some c) :
    p.editsOf (filling c.site plan lines) =
      .ok ((c.fillRequests m (plan.map PlannedArgument.text) lines).map (c.site.file, ·)) := by
  have hrecord := recordOf_eq_ok_iff.2 hc
  have hmodule := moduleOf_eq_ok_iff.2 hm
  rw [editsOf, filling, CallRecord.fillRequests, CallRecord.argumentEdit, noted]
  by_cases hcount : c.site.argumentCount = 0
  · rw [if_pos hcount, if_pos hcount]
    by_cases hlines : lines = []
    · simp [hlines, hrecord, bind, Except.bind, pure, Except.pure, planText]
    · simp [hlines, hrecord, hmodule, bind, Except.bind, pure, Except.pure, planText]
  · rw [if_neg hcount, if_neg hcount]
    by_cases hlines : lines = []
    · simp [hlines, hrecord, hmodule, bind, Except.bind, pure, Except.pure]
    · simp [hlines, hrecord, hmodule, bind, Except.bind, pure, Except.pure]

/-- One file is edited, with all edits at once. -/
theorem editedTexts_filling (hm : p.file? c.site.file = some m)
    (hc : p.call? c.site.id = some c) {new : String}
    (hnew : applyAll m.text (c.fillRequests m (plan.map PlannedArgument.text) lines) = .ok new) :
    p.editedTexts [] (filling c.site plan lines) = .ok [(c.site.file, new)] := by
  -- all edits are in the file of the call
  have hfiles : dedupBy id (((c.fillRequests m (plan.map PlannedArgument.text) lines).map
      (c.site.file, ·)).map (·.1)) = [c.site.file] := by
    rw [CallRecord.fillRequests]
    by_cases hlines : lines = []
    · rw [if_pos hlines]
      rfl
    · rw [if_neg hlines]
      simp [dedupBy]
  have hedits : (((c.fillRequests m (plan.map PlannedArgument.text) lines).map
      (c.site.file, ·)).filter fun e => e.1 = c.site.file).map (·.2) =
      c.fillRequests m (plan.map PlannedArgument.text) lines := by
    rw [List.filter_eq_self.2, List.map_map]
    · exact List.map_id _
    · intro e he
      obtain ⟨edit, _, rfl⟩ := List.mem_map.1 he
      exact decide_eq_true rfl
  refine editedTexts_eq_ok_iff.2 ⟨_, editsOf_filling hm hc, hfiles.symm, ?_⟩
  intro entry hentry
  rw [List.mem_singleton.1 hentry]
  refine editedText_eq_ok_iff.2 ⟨rfl, m, hm, ?_⟩
  rw [editsIn, hedits]
  exact hnew

/-- The transaction of a plan ends with the new text of the call's file. -/
theorem transact_edits (hm : p.file? c.site.file = some m) (hc : p.call? c.site.id = some c)
    (hplan : plan ≠ []) {new : String}
    (hnew : applyAll m.text (c.fillRequests m (plan.map PlannedArgument.text)
      (p.importLines c.site.file m (plan.flatMap PlannedArgument.symbols))) = .ok new) :
    p.editor.transact (Host.edits c.site plan) {} =
      (.ok (), { documents := [(c.site.file, new)] }) := by
  have hbegin : p.editor.begin {} = (.ok (), ⟨some {}, []⟩) := rfl
  refine Editor.transact_eq hbegin (editAll_edits hm hplan) ?_
  exact commitEdits_of_editedTexts (editedTexts_filling hm hc hnew)

/-! ## The whole population -/

variable {o : Options} {sel : Selections} {missing : List Parameter} {config : Config}

/-- Filling a call with a plan that is not empty reports the plan's arguments and leaves the new
text of the call's file. -/
theorem populateMissing_eq (hm : p.file? c.site.file = some m) (hc : p.call? c.site.id = some c)
    (hplan : p.host.planFor config c.site missing o sel = plan) (hne : plan ≠ []) {new : String}
    (hnew : applyAll m.text (c.fillRequests m (plan.map PlannedArgument.text)
      (p.importLines c.site.file m (plan.flatMap PlannedArgument.symbols))) = .ok new) :
    p.host.populateMissing config p.editor c.site missing o sel {} =
      (.ok (p.host.filledReport c.site plan), .done, { documents := [(c.site.file, new)] }) := by
  rw [Host.populateMissing_of_transact hplan hne (transact_edits hm hc hne hnew)]
  rfl

end Project

end CallFill
