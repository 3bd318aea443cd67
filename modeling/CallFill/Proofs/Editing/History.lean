import CallFill.Proofs.Editing.Commit
import CallFill.Proofs.Population.Protocol

/-!
# Whatever is asked of an editor

An editor may be asked for operations in any order: edits without a transaction, a second `begin`,
commits that fail. `Editor.run` makes operations one after the other, whatever becomes of each, and
logs the outcomes. The log tells which transactions were kept (`OperationLog.kept`): the edits that
were noted between a `begin` and a commit that succeeded. The documents of a project's editor are
what the kept transactions alone leave (`Project.orderly_run`), so an edit that was rolled back, or
whose commit failed, has reached none of them.
-/

namespace CallFill

namespace Operation

/-- Whether a transaction is open after an operation, given whether one was before. -/
def leavesOpen : Operation → Bool → Bool
  | .begin, _ => true
  | .edit _, isOpen => isOpen
  | .commit, _ => false
  | .rollback, _ => false

/-- Whether a transaction is open after operations: there was a `begin` after the last commit and
the last rollback. -/
def leaveOpen (ops : List Operation) : Bool :=
  ops.foldl (fun isOpen op => op.leavesOpen isOpen) false

/-- The last operation decides, on what those before it left open. -/
theorem leaveOpen_concat (ops : List Operation) (op : Operation) :
    leaveOpen (ops ++ [op]) = op.leavesOpen (leaveOpen ops) := by
  simp [leaveOpen]

end Operation

namespace Editor

variable {σ : Type} (e : Editor σ)

/-- Answers an operation. Rolling back always succeeds. -/
def serve : Operation → σ → Except Error Unit × σ
  | .begin, s => e.begin s
  | .edit edit, s => e.edit edit s
  | .commit, s => e.commit s
  | .rollback, s => (.ok (), e.rollback s)

/-- Answers operations one after the other, whatever becomes of each. -/
def run : List Operation → σ → OperationLog × σ
  | [], s => ([], s)
  | op :: ops, s =>
    let (outcome, next) := e.serve op s
    let (log, last) := run ops next
    ((op, outcome) :: log, last)

/-- Makes transactions one after the other, up to the first that fails. -/
def replay : List (List Edit) → σ → Except Error Unit × σ
  | [], s => (.ok (), s)
  | edits :: rest, s =>
    match e.transact edits s with
    | (.error err, s) => (.error err, s)
    | (.ok (), s) => replay rest s

variable {e} in
/-- A transaction more may be replayed where those before it end. -/
theorem replay_concat {transactions : List (List Edit)} {edits : List Edit} {s s' s'' : σ}
    (h : e.replay transactions s = (.ok (), s')) (hlast : e.transact edits s' = (.ok (), s'')) :
    e.replay (transactions ++ [edits]) s = (.ok (), s'') := by
  induction transactions generalizing s with
  | nil =>
      rw [replay] at h
      rw [List.nil_append, replay, (Prod.mk.inj h).2, hlast]
      rfl
  | cons first rest ih =>
      rw [replay] at h
      rw [List.cons_append, replay]
      split at h
      · exact nomatch (Prod.mk.inj h).1
      · exact ih h

theorem run_cons (op : Operation) (ops : List Operation) (s : σ) :
    e.run (op :: ops) s =
      ((op, (e.serve op s).1) :: (e.run ops (e.serve op s).2).1,
        (e.run ops (e.serve op s).2).2) := rfl

/-- Operations are answered one list after the other. -/
theorem run_append (ops more : List Operation) (s : σ) :
    e.run (ops ++ more) s =
      ((e.run ops s).1 ++ (e.run more (e.run ops s).2).1, (e.run more (e.run ops s).2).2) := by
  induction ops generalizing s with
  | nil => rfl
  | cons op ops ih =>
      rw [List.cons_append, run_cons, run_cons, ih]
      rfl

/-- The last operation is answered in the state that the others left. -/
theorem run_concat (ops : List Operation) (op : Operation) (s : σ) :
    e.run (ops ++ [op]) s =
      ((e.run ops s).1 ++ [(op, (e.serve op (e.run ops s).2).1)],
        (e.serve op (e.run ops s).2).2) :=
  e.run_append ops [op] s

end Editor

/-! ## The transactions that were kept -/

/-- What a log says of transactions: the edits noted in the open one, and those of the transactions
that were kept. -/
structure Ledger where
  noted : Option (List Edit) := none
  kept : List (List Edit) := []

namespace Ledger

/-- The ledger after one more operation. What failed adds no edit, and a transaction that is rolled
back, or whose commit fails, leaves nothing behind. -/
def enter (l : Ledger) : Operation × Except Error Unit → Ledger
  | (.begin, .ok _) => { l with noted := some [] }
  | (.edit edit, .ok _) => { l with noted := l.noted.map (· ++ [edit]) }
  | (.commit, .ok _) => { noted := none, kept := l.kept ++ l.noted.toList }
  | (.commit, .error _) => { l with noted := none }
  | (.rollback, _) => { l with noted := none }
  | (.begin, .error _) => l
  | (.edit _, .error _) => l

/-- What a log says of transactions. -/
def ofLog (log : OperationLog) : Ledger :=
  log.foldl enter {}

/-- The ledger grows with the log. -/
theorem ofLog_concat (log : OperationLog) (entry : Operation × Except Error Unit) :
    ofLog (log ++ [entry]) = (ofLog log).enter entry := by
  simp [ofLog]

end Ledger

/-- The edits of each transaction of a log that was committed. -/
def OperationLog.kept (log : OperationLog) : List (List Edit) :=
  (Ledger.ofLog log).kept

namespace Project

variable {p : Project} {s s' : EditorState} {edit : Edit} {e : Error}

/-! ## One operation -/

/-- Noting an edit changes no document. -/
theorem documents_amend (s : EditorState) (change : PendingEdits → PendingEdits) :
    (amend s change).2.documents = s.documents := by
  rw [amend]
  split
  · rfl
  · rfl

/-- Without a transaction nothing is noted. -/
theorem amend_of_pending_none (h : s.pending = none) (change : PendingEdits → PendingEdits) :
    amend s change = (.error (.rejected .noTransaction), s) := by
  rw [amend, h]

/-- What cannot be noted changes nothing. -/
theorem amend_of_error {change : PendingEdits → PendingEdits} (h : (amend s change).1 = .error e) :
    (amend s change).2 = s := by
  rw [amend] at h ⊢
  split
  · rfl
  · next t ht =>
      rw [ht] at h
      exact nomatch h

/-- Noting an edit neither opens nor closes a transaction. -/
theorem isSome_pending_amend (s : EditorState) (change : PendingEdits → PendingEdits) :
    (amend s change).2.pending.isSome = s.pending.isSome := by
  rw [amend]
  split
  · rfl
  · next t ht => rw [ht, Option.isSome_some, Option.isSome_some]

/-- Noting an edit either leaves the state as it is or adds to the open transaction. -/
theorem noteEdit_cases (p : Project) (edit : Edit) (s : EditorState) :
    (∃ outcome, p.noteEdit edit s = (outcome, s)) ∨
      ∃ change, p.noteEdit edit s = amend s change := by
  cases edit with
  | replace call inner => exact Or.inr ⟨_, rfl⟩
  | append call name value => exact Or.inr ⟨_, rfl⟩
  | ensureImported file anchor symbol =>
      rw [noteEdit]
      split
      · exact Or.inl ⟨_, rfl⟩
      · split
        · exact Or.inl ⟨_, rfl⟩
        · split
          · exact Or.inl ⟨_, rfl⟩
          · exact Or.inr ⟨_, rfl⟩

/-- Whatever edit is asked for, no document changes before the commit. -/
theorem documents_noteEdit (p : Project) (edit : Edit) (s : EditorState) :
    (p.noteEdit edit s).2.documents = s.documents := by
  rcases p.noteEdit_cases edit s with ⟨outcome, h⟩ | ⟨change, h⟩
  · rw [h]
  · rw [h, documents_amend]

/-- No edit opens or closes a transaction. -/
theorem isSome_pending_noteEdit (p : Project) (edit : Edit) (s : EditorState) :
    (p.noteEdit edit s).2.pending.isSome = s.pending.isSome := by
  rcases p.noteEdit_cases edit s with ⟨outcome, h⟩ | ⟨change, h⟩
  · rw [h]
  · rw [h, isSome_pending_amend]

/-- Without a transaction an edit changes nothing, whether it is refused or not needed. -/
theorem noteEdit_of_pending_none (h : s.pending = none) (edit : Edit) :
    (p.noteEdit edit s).2 = s := by
  rcases p.noteEdit_cases edit s with ⟨outcome, heq⟩ | ⟨change, heq⟩
  · rw [heq]
  · rw [heq, amend_of_pending_none h]

/-- An edit that fails changes nothing. -/
theorem noteEdit_of_error (h : (p.noteEdit edit s).1 = .error e) : (p.noteEdit edit s).2 = s := by
  rcases p.noteEdit_cases edit s with ⟨outcome, heq⟩ | ⟨change, heq⟩
  · rw [heq]
  · rw [heq] at h ⊢
    exact amend_of_error h

/-- A commit without a transaction fails. -/
theorem commitEdits_of_pending_none (h : s.pending = none) :
    p.commitEdits s = (.error (.rejected .noTransaction), s) := by
  rw [commitEdits, h]

/-- A commit ends the transaction; it adds all the texts that the transaction leaves, or none. -/
theorem commitEdits_cases {t : PendingEdits} (h : s.pending = some t) :
    (∃ err, p.commitEdits s = (.error err, { documents := s.documents })) ∨
    ∃ texts, p.editedTexts s.documents t = .ok texts ∧
      p.commitEdits s = (.ok (), { documents := KeyedList.putAll s.documents texts }) := by
  rw [commitEdits, h]
  dsimp only
  cases htexts : p.editedTexts s.documents t with
  | error err => exact Or.inl ⟨err, rfl⟩
  | ok texts => exact Or.inr ⟨texts, rfl, rfl⟩

/-- A commit closes the transaction, whatever its outcome. -/
theorem pending_commitEdits (p : Project) (s : EditorState) :
    (p.commitEdits s).2.pending = none := by
  cases h : s.pending with
  | none => rw [commitEdits_of_pending_none h, h]
  | some t =>
      rcases commitEdits_cases (p := p) h with ⟨err, heq⟩ | ⟨texts, _, heq⟩
      · rw [heq]
      · rw [heq]

/-- After a commit that fails, nothing is left of the transaction. -/
theorem commitEdits_of_error (h : (p.commitEdits s).1 = .error e) :
    (p.commitEdits s).2 = { documents := s.documents } := by
  obtain ⟨pending, documents⟩ := s
  cases pending with
  | none => rfl
  | some t =>
      rcases commitEdits_cases (p := p) (s := ⟨some t, documents⟩) rfl with
        ⟨err, heq⟩ | ⟨texts, _, heq⟩
      · rw [heq]
      · rw [heq] at h
        exact nomatch h

/-- A commit changes no document that is there. -/
theorem get?_documents_commitEdits {file : FileId} {text : String}
    (h : KeyedList.get? s.documents file = some text) :
    KeyedList.get? (p.commitEdits s).2.documents file = some text := by
  cases ht : s.pending with
  | none => rw [commitEdits_of_pending_none ht, h]
  | some t =>
      rcases commitEdits_cases (p := p) ht with ⟨err, heq⟩ | ⟨texts, htexts, heq⟩
      · rw [heq, h]
      · -- no text that the commit adds is that of a file which has a document
        have hnew : file ∉ KeyedList.keys texts := by
          intro hmem
          obtain ⟨entry, hentry, rfl⟩ := List.mem_map.1 hmem
          have hnone := has_eq_false_of_mem_editedTexts htexts hentry
          rw [KeyedList.has, h] at hnone
          exact Bool.noConfusion hnone
        rw [heq]
        exact (KeyedList.get?_putAll_of_not_mem hnew).trans h

/-- Opening a transaction is refused exactly if one is open. -/
theorem begin_error_iff : (∃ err, (p.editor.begin s).1 = .error err) ↔ s.pending.isSome = true := by
  obtain ⟨pending, documents⟩ := s
  cases pending with
  | some t => exact ⟨fun _ => rfl, fun _ => ⟨_, rfl⟩⟩
  | none =>
      constructor
      · rintro ⟨err, h⟩
        exact nomatch h
      · intro h
        exact nomatch h

/-- Beginning a transaction changes no document. -/
theorem documents_begin (p : Project) (s : EditorState) :
    (p.editor.begin s).2.documents = s.documents := by
  obtain ⟨pending, documents⟩ := s
  cases pending with
  | none => rfl
  | some t => rfl

/-! ## Any operation -/

variable {op : Operation}

/-- Documents change in a commit that succeeds, and in no other operation. -/
theorem serve_of_documents_ne (h : (p.editor.serve op s).2.documents ≠ s.documents) :
    op = .commit ∧ (p.editor.serve op s).1 = .ok () := by
  cases op with
  | begin => exact absurd (p.documents_begin s) h
  | edit edit => exact absurd (p.documents_noteEdit edit s) h
  | rollback => exact absurd rfl h
  | commit =>
      cases houtcome : (p.commitEdits s).1 with
      | ok u => exact ⟨rfl, houtcome⟩
      | error err =>
          refine absurd ?_ h
          show (p.commitEdits s).2.documents = s.documents
          rw [commitEdits_of_error houtcome]

/-- No operation changes a document that is there. -/
theorem get?_documents_serve {file : FileId} {text : String}
    (h : KeyedList.get? s.documents file = some text) :
    KeyedList.get? (p.editor.serve op s).2.documents file = some text := by
  cases op with
  | begin => exact (congrArg (KeyedList.get? · file) (p.documents_begin s)).trans h
  | edit edit => exact (congrArg (KeyedList.get? · file) (p.documents_noteEdit edit s)).trans h
  | rollback => exact h
  | commit => exact get?_documents_commitEdits h

/-- Whether a transaction is open after an operation depends on the operation and on whether one was
before, and not on the outcome. -/
theorem isSome_pending_serve (p : Project) (op : Operation) (s : EditorState) :
    (p.editor.serve op s).2.pending.isSome = op.leavesOpen s.pending.isSome := by
  cases op with
  | begin =>
      obtain ⟨pending, documents⟩ := s
      cases pending with
      | none => rfl
      | some t => rfl
  | edit edit => exact p.isSome_pending_noteEdit edit s
  | rollback => rfl
  | commit =>
      show (p.commitEdits s).2.pending.isSome = false
      rw [pending_commitEdits]
      rfl

/-! ## Any sequence of operations -/

/-- A state is what a ledger says: its documents are what the kept transactions leave, and its open
transaction is what the noted edits come to. -/
structure Reflects (p : Project) (l : Ledger) (s : EditorState) : Prop where
  replay_kept : p.editor.replay l.kept {} = (.ok (), { documents := s.documents })
  pending_eq_none : l.noted = none → s.pending = none
  editAll_noted : ∀ edits, l.noted = some edits →
    p.editor.editAll edits { pending := some {}, documents := s.documents } = (.ok (), s)

/-- The texts of a project, before anything is asked. -/
theorem reflects_start (p : Project) : p.Reflects {} {} where
  replay_kept := rfl
  pending_eq_none := fun _ => rfl
  editAll_noted := fun _ h => nomatch h

/-- Without an open transaction there is nothing noted. -/
theorem Reflects.close {l : Ledger} (h : p.Reflects l s) :
    p.Reflects { l with noted := none } { documents := s.documents } where
  replay_kept := h.replay_kept
  pending_eq_none := fun _ => rfl
  editAll_noted := fun _ hnoted => nomatch hnoted

/-- A transaction that is begun has no edits yet. -/
theorem Reflects.begin {l : Ledger} (h : p.Reflects l s) :
    p.Reflects (l.enter (.begin, (p.editor.begin s).1)) (p.editor.begin s).2 := by
  obtain ⟨pending, documents⟩ := s
  cases pending with
  | some t => exact h
  | none =>
      have hnoted : (l.enter (.begin, .ok ())).noted = some [] := rfl
      refine ⟨h.replay_kept, fun hnone => ?_, fun edits hedits => ?_⟩
      · exact nomatch hnoted.symm.trans hnone
      · rw [← Option.some.inj (hnoted.symm.trans hedits)]
        rfl

/-- An edit that is noted is one more; one that fails leaves the open transaction as it is. -/
theorem Reflects.noteEdit {l : Ledger} (h : p.Reflects l s) (edit : Edit) :
    p.Reflects (l.enter (.edit edit, (p.noteEdit edit s).1)) (p.noteEdit edit s).2 := by
  -- an edit that fails changes neither side; one that succeeds has a transaction to be noted in
  cases houtcome : (p.noteEdit edit s).1 with
  | error err =>
      rw [noteEdit_of_error houtcome]
      exact h
  | ok u =>
      cases hnoted : l.noted with
      | none =>
          rw [noteEdit_of_pending_none (h.pending_eq_none hnoted)]
          refine ⟨h.replay_kept, fun _ => h.pending_eq_none hnoted, fun edits hedits => ?_⟩
          have hmap : l.noted.map (· ++ [edit]) = some edits := hedits
          rw [hnoted] at hmap
          exact nomatch hmap
      | some edits =>
          have hdocuments := p.documents_noteEdit edit s
          have hstep : p.editor.edit edit s = (.ok (), (p.noteEdit edit s).2) :=
            Prod.ext houtcome rfl
          refine ⟨?_, fun hnone => ?_, fun more hmore => ?_⟩
          · rw [hdocuments]
            exact h.replay_kept
          · have hmap : l.noted.map (· ++ [edit]) = none := hnone
            rw [hnoted] at hmap
            exact nomatch hmap
          · have hmap : l.noted.map (· ++ [edit]) = some more := hmore
            rw [hnoted] at hmap
            rw [← Option.some.inj hmap, hdocuments,
              Editor.editAll_append (h.editAll_noted edits hnoted), Editor.editAll_cons hstep]
            rfl

/-- A commit that succeeds keeps the noted edits; after one that fails they are forgotten. -/
theorem Reflects.commit {l : Ledger} (h : p.Reflects l s) :
    p.Reflects (l.enter (.commit, (p.commitEdits s).1)) (p.commitEdits s).2 := by
  cases houtcome : (p.commitEdits s).1 with
  | error err =>
      rw [commitEdits_of_error houtcome]
      exact h.close
  | ok u =>
      cases hnoted : l.noted with
      | none =>
          rw [commitEdits_of_pending_none (h.pending_eq_none hnoted)] at houtcome
          exact nomatch houtcome
      | some edits =>
          have hopened : p.editor.begin { documents := s.documents } =
              (.ok (), { pending := some {}, documents := s.documents }) := rfl
          have hcommit : p.editor.commit s = (.ok (), (p.commitEdits s).2) :=
            Prod.ext houtcome rfl
          have hlast := Editor.transact_eq hopened (h.editAll_noted edits hnoted) hcommit
          have hpending := p.pending_commitEdits s
          refine ⟨?_, fun _ => hpending, fun _ hnone => nomatch hnone⟩
          show p.editor.replay (l.kept ++ l.noted.toList) {} = _
          rw [hnoted, Option.toList_some, Editor.replay_concat h.replay_kept hlast]
          rw [← hpending]

/-- Every operation keeps the ledger right. -/
theorem Reflects.serve {l : Ledger} (h : p.Reflects l s) (op : Operation) :
    p.Reflects (l.enter (op, (p.editor.serve op s).1)) (p.editor.serve op s).2 := by
  cases op with
  | begin => exact h.begin
  | edit edit => exact h.noteEdit edit
  | commit => exact h.commit
  | rollback => exact h.close

/-- The outcomes of operations that are asked of a project's editor. -/
def logOf (p : Project) (ops : List Operation) : OperationLog :=
  (p.editor.run ops {}).1

/-- The state of a project's editor after operations. -/
def stateAfter (p : Project) (ops : List Operation) : EditorState :=
  (p.editor.run ops {}).2

/-- The state after any operations is what the log of them says. -/
theorem reflects_run (p : Project) (ops : List Operation) :
    p.Reflects (Ledger.ofLog (p.logOf ops)) (p.stateAfter ops) := by
  induction ops using List.reverseRecOn with
  | nil => exact p.reflects_start
  | append_singleton ops op ih =>
      rw [logOf, stateAfter, Editor.run_concat, Ledger.ofLog_concat]
      exact ih.serve op

/-- Whether a transaction is open can be told from the operations, whatever became of them. -/
theorem isSome_pending_stateAfter (p : Project) (ops : List Operation) :
    (p.stateAfter ops).pending.isSome = Operation.leaveOpen ops := by
  induction ops using List.reverseRecOn with
  | nil => rfl
  | append_singleton ops op ih =>
      rw [stateAfter, Editor.run_concat, Operation.leaveOpen_concat, ← ih]
      exact p.isSome_pending_serve op _

/-- A document once written stays as it is, whatever is asked for later. -/
theorem get?_documents_stateAfter {ops : List Operation} {file : FileId} {text : String}
    (h : KeyedList.get? (p.stateAfter ops).documents file = some text) (more : List Operation) :
    KeyedList.get? (p.stateAfter (ops ++ more)).documents file = some text := by
  induction more using List.reverseRecOn with
  | nil =>
      rw [List.append_nil]
      exact h
  | append_singleton more op ih =>
      rw [← List.append_assoc, stateAfter, Editor.run_concat]
      exact get?_documents_serve ih

/-- What holds of a project's editor after operations, whatever they were and however each of them
ended. -/
structure Orderly (p : Project) (ops : List Operation) : Prop where
  /-- The next operation changes documents only if it is a commit and succeeds. -/
  changed_by_commit : ∀ op,
    (p.editor.serve op (p.stateAfter ops)).2.documents ≠ (p.stateAfter ops).documents →
      op = .commit ∧ (p.editor.serve op (p.stateAfter ops)).1 = .ok ()
  /-- A commit that fails leaves all documents, and so does a rollback; nothing else is left. -/
  failed_commit : ∀ err, (p.editor.commit (p.stateAfter ops)).1 = .error err →
    (p.editor.commit (p.stateAfter ops)).2 = { documents := (p.stateAfter ops).documents }
  rolled_back : p.editor.rollback (p.stateAfter ops) = { documents := (p.stateAfter ops).documents }
  /-- A document that is there stays as it is, whatever follows. -/
  document_stays : ∀ more file text,
    KeyedList.get? (p.stateAfter ops).documents file = some text →
      KeyedList.get? (p.stateAfter (ops ++ more)).documents file = some text
  /-- A transaction can be opened unless one is open. -/
  begin_fails_iff : (∃ err, (p.editor.begin (p.stateAfter ops)).1 = .error err) ↔
    (p.stateAfter ops).pending.isSome = true
  /-- A transaction is open if it was begun after the last commit and the last rollback. -/
  open_iff : (p.stateAfter ops).pending.isSome = Operation.leaveOpen ops
  /-- After a commit, whatever its outcome, and after a rollback no transaction is open. -/
  closed : (p.editor.commit (p.stateAfter ops)).2.pending = none ∧
    (p.editor.rollback (p.stateAfter ops)).pending = none
  /-- The transactions that were kept succeed by themselves and leave the same documents. -/
  documents_of_kept : p.editor.replay (p.logOf ops).kept {} =
    (.ok (), { documents := (p.stateAfter ops).documents })

/-- **Histories are orderly.** Whatever is asked of a project's editor, and however each operation
ends, the documents are what the committed transactions leave. -/
theorem orderly_run (p : Project) (ops : List Operation) : p.Orderly ops where
  changed_by_commit _ h := serve_of_documents_ne h
  failed_commit _ h := commitEdits_of_error h
  rolled_back := rfl
  document_stays more _ _ h := get?_documents_stateAfter h more
  begin_fails_iff := begin_error_iff
  open_iff := p.isSome_pending_stateAfter ops
  closed := ⟨p.pending_commitEdits _, rfl⟩
  documents_of_kept := (p.reflects_run ops).replay_kept

end Project

end CallFill
