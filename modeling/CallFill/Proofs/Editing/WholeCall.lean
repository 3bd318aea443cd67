import CallFill.Proofs.Editing.FillChanges
import CallFill.Workspace

/-!
# Filling a call as one edit of the whole call

A preview renders a call as a whole, while a population edits inside its parentheses. Both come to
the same: an edit can be widened by text that it keeps (`Spliced.widen`), and the arguments widened
to the whole call are what the preview renders (`CallRecord.spliced_wholeEdits`). In the new text
the whole call stands where the old one stood, moved by the import lines if these go before it.
-/

namespace CallFill

open Text

namespace TextEdit

variable {pos start stop : Nat} {cs result front head tail : List Char} {e : TextEdit}
  {es earlier later : List TextEdit}

theorem Spliced.eq_of_nil (h : Spliced pos cs [] result) : result = cs := by
  cases h
  rfl

/-- A splice keeps what lies before its first edit. -/
theorem Spliced.advance (h : Spliced pos (front ++ cs) es result)
    (hle : ∀ e ∈ es, pos + byteLength front ≤ e.start) :
    ∃ rest, result = front ++ rest ∧ Spliced (pos + byteLength front) cs es rest := by
  cases es with
  | nil => exact ⟨cs, h.eq_of_nil, Spliced.kept _ cs⟩
  | cons e es =>
      obtain ⟨before, cut, rest, next, hcs, hstart, hstop, rfl, hrest⟩ := h.of_cons
      have hfirst := hle e List.mem_cons_self
      obtain ⟨more, rfl, rfl⟩ := append_of_byteLength_le hcs (by omega)
      refine ⟨more ++ (e.text.toList ++ next), List.append_assoc _ _ _, ?_⟩
      refine Spliced.edited ?_ hstop hrest
      rw [hstart, byteLength_append]
      omega

/-- An edit that is widened by text that it keeps leaves the same result. -/
theorem Spliced.widen (earlier : List TextEdit) (before : List Char)
    (h : Spliced pos cs (earlier ++ e :: later) result)
    (hpos : byteLength before = pos) (hhead : Holds (before ++ cs) start e.start head)
    (htail : Holds (before ++ cs) e.stop stop tail) (hearlier : ∀ f ∈ earlier, f.stop ≤ start)
    (hle : pos ≤ start) (hlater : ∀ f ∈ later, stop ≤ f.start) :
    Spliced pos cs (earlier ++ ⟨start, stop, String.ofList (head ++ (e.text.toList ++ tail))⟩ ::
      later) result := by
  induction earlier generalizing pos cs result before with
  | nil =>
      obtain ⟨kept, cut, rest, next, rfl, hstart, hstop, rfl, hrest⟩ := h.of_cons
      -- the kept text ends with the head, and what follows the cut starts with the tail
      obtain ⟨front, back, hcs, hfront, hheadStop⟩ := hhead
      obtain ⟨front', back', hcs', hfront', htailStop⟩ := htail
      have hkept : before ++ kept = front ++ head := by
        have htexts : before ++ kept ++ (cut ++ rest) = front ++ head ++ back := by
          rw [List.append_assoc, List.append_assoc]
          exact hcs
        refine (append_inj_of_byteLength htexts ?_).1
        rw [byteLength_append, byteLength_append]
        omega
      have hback : rest = tail ++ back' := by
        have htexts : before ++ (kept ++ cut) ++ rest = front' ++ (tail ++ back') := by
          rw [List.append_assoc, List.append_assoc]
          exact hcs'
        refine (append_inj_of_byteLength htexts ?_).2
        rw [byteLength_append, byteLength_append]
        omega
      obtain ⟨mid, rfl, hmid⟩ : ∃ mid, front = before ++ mid ∧ kept = mid ++ head :=
        append_of_byteLength_le hkept (by omega)
      subst hmid hback
      obtain ⟨last, rfl, hlast⟩ := hrest.advance fun f hf => by
        have hf := hlater f hf
        omega
      rw [byteLength_append] at hfront hstart
      have hwhole : Spliced pos (mid ++ ((head ++ cut ++ tail) ++ back'))
          (⟨start, stop, String.ofList (head ++ (e.text.toList ++ tail))⟩ :: later)
          (mid ++ ((String.ofList (head ++ (e.text.toList ++ tail))).toList ++ last)) := by
        refine Spliced.edited ?_ ?_ ?_
        · show start = _
          omega
        · show stop = start + _
          rw [byteLength_append, byteLength_append]
          omega
        · show Spliced stop _ _ _
          rw [← htailStop]
          exact hlast
      simpa only [String.toList_ofList, List.append_assoc, List.nil_append] using hwhole
  | cons f earlier ih =>
      obtain ⟨kept, cut, rest, next, rfl, hstart, hstop, rfl, hrest⟩ := h.of_cons
      have htext : before ++ (kept ++ (cut ++ rest)) = before ++ kept ++ cut ++ rest := by
        rw [List.append_assoc, List.append_assoc]
      rw [htext] at hhead htail
      refine Spliced.edited hstart hstop (ih (before ++ kept ++ cut) hrest ?_ hhead htail ?_ ?_)
      · rw [byteLength_append, byteLength_append]
        omega
      · exact fun g hg => hearlier g (List.mem_cons_of_mem f hg)
      · exact hearlier f List.mem_cons_self

/-- Behind insertions, the text of an edit stands where the edit starts, moved by what was
inserted. -/
theorem Spliced.holds (h : Spliced pos cs (earlier ++ e :: later) result)
    (hinsert : ∀ f ∈ earlier, f.stop = f.start) :
    ∃ front back, result = front ++ (e.text.toList ++ back) ∧
      pos + byteLength front =
        e.start + byteLength (earlier.flatMap fun f => f.text.toList) := by
  induction earlier generalizing pos cs result with
  | nil =>
      obtain ⟨kept, _, _, next, _, hstart, _, rfl, _⟩ := h.of_cons
      exact ⟨kept, next, rfl, hstart.symm⟩
  | cons f earlier ih =>
      obtain ⟨kept, _, next, _, hstart, rfl, hrest⟩ :=
        h.of_insertion (hinsert f List.mem_cons_self)
      obtain ⟨front, back, rfl, hfront⟩ :=
        ih hrest fun g hg => hinsert g (List.mem_cons_of_mem f hg)
      refine ⟨kept ++ (f.text.toList ++ front), back, ?_, ?_⟩
      · rw [List.append_assoc, List.append_assoc]
      · rw [byteLength_append, byteLength_append, List.flatMap_cons, byteLength_append]
        omega

end TextEdit

namespace CallRecord

open TextEdit Workspace

variable {c : CallRecord} {m : SourceModule} {source head tail result : List Char}
  {arguments lines : List String} {text : String}

/-- The edit that puts a text in the place of a call. -/
def wholeEdit (c : CallRecord) (text : String) : TextEdit where
  start := c.start
  stop := c.stop
  text := text

/-- The edits that put a text in the place of a call and give its file more import lines, in the
order of the text. -/
def wholeEdits (c : CallRecord) (m : SourceModule) (text : String) (lines : List String) :
    List TextEdit :=
  if lines = [] then [c.wholeEdit text]
  else if m.importOffset ≤ c.start then [m.importEdit lines, c.wholeEdit text]
  else [c.wholeEdit text, m.importEdit lines]

/-- By how many bytes more import lines move a call. -/
def shift (c : CallRecord) (m : SourceModule) (lines : List String) : Nat :=
  if lines = [] then 0
  else if m.importOffset ≤ c.start then byteLength (m.importEdit lines).text.toList
  else 0

/-- A call is rendered with the text of its argument edit between what stays before and behind. -/
theorem renderCall_eq (hspans : c.Spans source) (hopens : c.OpensBetween source)
    (hne : arguments ≠ [])
    (hhead : Holds source c.start (c.argumentEdit source arguments).start head)
    (htail : Holds source (c.argumentEdit source arguments).stop c.stop tail) :
    renderCall source c arguments =
      String.ofList (head ++ ((c.argumentEdit source arguments).text.toList ++ tail)) := by
  have hsome : arguments.isEmpty = false := List.isEmpty_eq_false_iff.2 hne
  obtain ⟨_, hclose, _⟩ := argumentEdit_within hspans hopens arguments
  rw [renderCall]
  dsimp only
  rw [hsome, if_neg Bool.false_ne_true]
  rw [argumentEdit] at hhead htail hclose ⊢
  apply String.toList_inj.1
  -- between empty parentheses everything is replaced; else what stands behind the range of the edit
  -- is kept, in two slices
  by_cases hcount : c.site.argumentCount = 0
  · rw [if_pos hcount] at hhead htail ⊢
    have hfront : slice source c.start (c.openParen + 1) = head := hhead.slice_eq
    have hback : slice source c.closeParen c.stop = tail := htail.slice_eq
    rw [if_pos hcount, hfront, hback]
    simp only [String.toList_append, String.toList_ofList, List.append_assoc]
    rfl
  · rw [if_neg hcount] at hhead htail hclose ⊢
    obtain ⟨last, hlast⟩ := hspans.last_isSome hcount
    have hfront : slice source c.start (c.appendRange source).1 = head := hhead.slice_eq
    have hback : slice source (c.appendRange source).2 c.closeParen ++
        slice source c.closeParen c.stop = tail := by
      obtain ⟨kept, hkept⟩ := exists_holds htail.isBoundary_start hspans.closing hclose
      obtain ⟨closing, hclosing⟩ := exists_holds hspans.closing htail.isBoundary_stop
        (Nat.le_of_lt hspans.close_lt_stop)
      have hslice : slice source (c.appendRange source).2 c.closeParen = kept := hkept.slice_eq
      rw [hslice, hclosing.slice_eq]
      exact (hkept.append hclosing).unique htail
    have htext : (c.addition source arguments).text = ", " ++ ", ".intercalate arguments := by
      rw [addition, hlast]
      rfl
    rw [if_neg hcount, hfront, htext, ← hback]
    simp only [String.toList_append, String.toList_ofList, List.append_assoc]

/-- Filling a call puts what `renderCall` renders in the place of the whole call. -/
theorem spliced_wholeEdits {gap behind : Nat → Nat → Prop}
    (hplaced : c.Placed m.text.toList gap behind)
    (hstart : IsBoundary m.text.toList c.start) (hstop : IsBoundary m.text.toList c.stop)
    (hside : m.importOffset ≤ c.start ∨ c.stop ≤ m.importOffset) (hne : arguments ≠ [])
    (h : Spliced 0 m.text.toList (c.fillEdits m arguments lines) result) :
    Spliced 0 m.text.toList (c.wholeEdits m (renderCall m.text.toList c arguments) lines)
      result := by
  have hspans := spans_of_placed hplaced
  have hopens := opensBetween_of_placed hplaced
  obtain ⟨hopen, hclose, hfits⟩ := argumentEdit_within hspans hopens arguments
  have hbefore := hplaced.start_le
  have hbehind := hplaced.close_lt_stop
  have hlt := hplaced.open_lt_close
  obtain ⟨head, hhead⟩ := exists_holds hstart hfits.start_isBoundary (by omega)
  obtain ⟨tail, htail⟩ := exists_holds hfits.stop_isBoundary hstop (by omega)
  rw [renderCall_eq hspans hopens hne hhead htail]
  -- the import lines are a splice of their own on either side of the call, or there are none
  rw [fillEdits] at h
  rw [wholeEdits]
  split at h
  · next hlines =>
      rw [if_pos hlines]
      exact Spliced.widen [] [] h rfl hhead htail (by simp) (Nat.zero_le _) (by simp)
  · next hlines =>
      rw [if_neg hlines]
      split at h
      · next hoffset =>
          rw [if_pos hoffset]
          refine Spliced.widen [m.importEdit lines] [] h rfl hhead htail ?_ (Nat.zero_le _)
            (by simp)
          intro f hf
          rw [List.mem_singleton.1 hf]
          exact hoffset
      · next hoffset =>
          rw [if_neg hoffset]
          refine Spliced.widen [] [] h rfl hhead htail (by simp) (Nat.zero_le _) ?_
          intro f hf
          rw [List.mem_singleton.1 hf]
          exact hside.resolve_left hoffset

/-- The text in the place of a call stands where the call stood, moved by import lines before it. -/
theorem holds_wholeEdits (h : Spliced 0 m.text.toList (c.wholeEdits m text lines) result) :
    Holds result (c.start + c.shift m lines)
      (c.start + c.shift m lines + byteLength text.toList) text.toList := by
  have hwhole : ∀ earlier later, (∀ f ∈ earlier, f.stop = f.start) →
      byteLength (earlier.flatMap fun f => f.text.toList) = c.shift m lines →
      c.wholeEdits m text lines = earlier ++ c.wholeEdit text :: later →
      Holds result (c.start + c.shift m lines)
        (c.start + c.shift m lines + byteLength text.toList) text.toList := by
    intro earlier later hinsert hshift hedits
    rw [hedits] at h
    obtain ⟨front, back, hresult, hfront⟩ := h.holds hinsert
    rw [hshift, Nat.zero_add] at hfront
    exact ⟨front, back, hresult, hfront, rfl⟩
  by_cases hlines : lines = []
  · exact hwhole [] [] (by simp) (by simp [shift, hlines]) (by simp [wholeEdits, hlines])
  · by_cases hoffset : m.importOffset ≤ c.start
    · refine hwhole [m.importEdit lines] [] ?_ ?_ ?_
      · intro f hf
        rw [List.mem_singleton.1 hf]
        rfl
      · simp [shift, hlines, hoffset]
      · simp [wholeEdits, hlines, hoffset]
    · exact hwhole [] [m.importEdit lines] (by simp) (by simp [shift, hlines, hoffset])
        (by simp [wholeEdits, hlines, hoffset])

end CallRecord

end CallFill
