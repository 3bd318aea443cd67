import CallFill.CallSite
import CallFill.Error

/-!
# Write transactions

An editor keeps documents and answers requests, each of which may fail and may change its state.
Edits are made between `begin` and `commit`. `transact` makes a list of edits all or not at all, as
far as the editor keeps its word: after the first edit that fails, and after a commit that fails, it
rolls back.
-/

namespace CallFill

/-- One edit of a document. -/
inductive Edit where
  /-- Puts a text between the parentheses of a call. -/
  | replace (call : CallSite) (inner : String)
  /-- Adds a keyword argument to a call. -/
  | append (call : CallSite) (name value : String)
  /-- Makes a symbol importable in a file; the anchor is the argument that needs it. -/
  | ensureImported (file : FileId) (anchor : String) (symbol : SymbolId)
  deriving DecidableEq, Repr

/-- An editor with states of type `σ`. -/
structure Editor (σ : Type) where
  begin : σ → Except Error Unit × σ
  commit : σ → Except Error Unit × σ
  rollback : σ → σ
  edit : Edit → σ → Except Error Unit × σ

namespace Editor

variable {σ : Type} (e : Editor σ)

/-- Makes edits in order, up to the first that fails. -/
def editAll : List Edit → σ → Except Error Unit × σ
  | [], state => (.ok (), state)
  | edit :: rest, state =>
    match e.edit edit state with
    | (.ok (), state) => editAll rest state
    | (.error err, state) => (.error err, state)

/-- Makes edits in one transaction and rolls back if an edit or the commit fails. -/
def transact (edits : List Edit) (state : σ) : Except Error Unit × σ :=
  match e.begin state with
  | (.error err, state) => (.error err, state)
  | (.ok (), state) =>
    match e.editAll edits state with
    | (.error err, state) => (.error err, e.rollback state)
    | (.ok (), state) =>
      match e.commit state with
      | (.error err, state) => (.error err, e.rollback state)
      | (.ok (), state) => (.ok (), state)

variable {e} {edit : Edit} {edits more : List Edit} {s s' opened noted : σ} {err : Error}

theorem editAll_cons (h : e.edit edit s = (.ok (), s')) :
    e.editAll (edit :: edits) s = e.editAll edits s' := by
  rw [editAll, h]

/-- After the first edit that fails no further one is made. -/
theorem editAll_cons_of_error (h : e.edit edit s = (.error err, s')) :
    e.editAll (edit :: edits) s = (.error err, s') := by
  rw [editAll, h]

/-- Edits are made one list after the other. -/
theorem editAll_append (h : e.editAll edits s = (.ok (), s')) :
    e.editAll (edits ++ more) s = e.editAll more s' := by
  induction edits generalizing s with
  | nil =>
      rw [editAll] at h
      rw [List.nil_append, (Prod.mk.inj h).2]
  | cons edit rest ih =>
      rw [editAll] at h
      rw [List.cons_append, editAll]
      split at h
      · exact ih h
      · exact absurd (Prod.mk.inj h).1 (by simp)

/-- A transaction that opens, takes all edits and commits ends as the commit leaves it. -/
theorem transact_eq {committed : σ} (hbegin : e.begin s = (.ok (), opened))
    (hedits : e.editAll edits opened = (.ok (), noted))
    (hcommit : e.commit noted = (.ok (), committed)) :
    e.transact edits s = (.ok (), committed) := by
  rw [transact, hbegin]
  dsimp only
  rw [hedits]
  dsimp only
  rw [hcommit]

/-- A transaction that does not open makes no edit. -/
theorem transact_of_begin_error (h : e.begin s = (.error err, s')) :
    e.transact edits s = (.error err, s') := by
  rw [transact, h]

/-- After an edit that fails it is rolled back. -/
theorem transact_of_edit_error (hbegin : e.begin s = (.ok (), opened))
    (h : e.editAll edits opened = (.error err, s')) :
    e.transact edits s = (.error err, e.rollback s') := by
  rw [transact, hbegin]
  dsimp only
  rw [h]

theorem transact_of_commit_error (hbegin : e.begin s = (.ok (), opened))
    (hedits : e.editAll edits opened = (.ok (), noted)) (h : e.commit noted = (.error err, s')) :
    e.transact edits s = (.error err, e.rollback s') := by
  rw [transact, hbegin]
  dsimp only
  rw [hedits]
  dsimp only
  rw [h]

end Editor

end CallFill
