import CallFill.ProjectEditor
import CallFill.Proofs.Codebase.Calls
import CallFill.Proofs.Editing.Splice

/-!
# The edits that fill a call

Filling a call makes at most two edits in the text of its file: the arguments go into the argument
range of the call, and the import lines, if any are needed, to the place of new import lines. Both
lie in the text, and the place of new import lines is before the call or behind it, so the two can
be made at once.
-/

namespace CallFill

open Text TextEdit

namespace CallRecord

/-- The edit that gives a call more arguments: all that stands between the parentheses is replaced
where the call has none. -/
def argumentEdit (source : List Char) (c : CallRecord) (arguments : List String) : TextEdit :=
  if c.site.argumentCount = 0 then c.replacement (", ".intercalate arguments)
  else c.addition source arguments

/-- The edits that give a call more arguments and its file more import lines, in the order of the
text. -/
def fillEdits (c : CallRecord) (m : SourceModule) (arguments lines : List String) :
    List TextEdit :=
  let edit := c.argumentEdit m.text.toList arguments
  if lines = [] then [edit]
  else if m.importOffset ≤ c.start then [m.importEdit lines, edit]
  else [edit, m.importEdit lines]

variable {c : CallRecord} {text : List Char} {m : SourceModule} {gap behind : Nat → Nat → Prop}

/-- The edits that fill a call in the order in which they are asked for. -/
def fillRequests (c : CallRecord) (m : SourceModule) (arguments lines : List String) :
    List TextEdit :=
  c.argumentEdit m.text.toList arguments :: if lines = [] then [] else [m.importEdit lines]

/-- The edits asked for are those listed in the order of the text. -/
theorem perm_fillEdits (c : CallRecord) (m : SourceModule) (arguments lines : List String) :
    (c.fillRequests m arguments lines).Perm (c.fillEdits m arguments lines) := by
  rw [fillRequests, fillEdits]
  by_cases hlines : lines = []
  · rw [if_pos hlines, if_pos hlines]
  · rw [if_neg hlines, if_neg hlines]
    split
    · exact List.Perm.swap _ _ _
    · exact List.Perm.refl _

/-! ## The ranges of the edits -/

/-- Arguments are appended behind the last one and before the closing parenthesis. -/
theorem appendRange_of_some (text : List Char) {last : Nat} (h : c.lastArgumentEnd = some last) :
    (c.appendRange text).1 = last ∧
      ((c.appendRange text).2 = last ∨ (c.appendRange text).2 = c.closeParen) := by
  rw [appendRange, h]
  dsimp only
  split
  · exact ⟨rfl, Or.inr rfl⟩
  · exact ⟨rfl, Or.inl rfl⟩

/-- What appended arguments overwrite is nothing but a trailing comma and blanks. -/
theorem isTrailing_appendRange {last : Nat} {piece : List Char} (h : c.lastArgumentEnd = some last)
    (hpiece : Holds text (c.appendRange text).1 (c.appendRange text).2 piece) :
    isTrailing piece = true := by
  rw [appendRange, h] at hpiece
  dsimp only at hpiece
  split at hpiece
  · next htrailing =>
      rw [hpiece.slice_eq] at htrailing
      exact htrailing
  · rw [hpiece.unique (holds_nil hpiece.isBoundary_start)]
    rfl

/-- The offsets of a call are in order and between characters of a text, and with arguments there is
an end of the last one. This says nothing of the characters at the offsets, so that it holds of
more records than of those that lie in the text. -/
structure Spans (text : List Char) (c : CallRecord) : Prop where
  start_le : c.start ≤ c.openParen
  open_lt_close : c.openParen < c.closeParen
  close_lt_stop : c.closeParen < c.stop
  opening : IsBoundary text c.openParen
  closing : IsBoundary text c.closeParen
  last : ∀ n ∈ c.lastArgumentEnd, IsBoundary text n ∧ c.openParen < n ∧ n ≤ c.closeParen
  last_isSome : c.site.argumentCount ≠ 0 → ∃ n, c.lastArgumentEnd = some n

/-- A call without arguments has the place of its first one between characters. -/
def OpensBetween (text : List Char) (c : CallRecord) : Prop :=
  c.site.argumentCount = 0 → IsBoundary text (c.openParen + 1)

/-- A call that lies in a text has its ends between characters. -/
theorem spans_of_placed (h : c.Placed text gap behind) : c.Spans text where
  start_le := h.start_le
  open_lt_close := h.open_lt_close
  close_lt_stop := h.close_lt_stop
  opening := h.opening.isBoundary_start
  closing := h.closing.isBoundary_start
  last := h.last
  last_isSome := fun hcount => Option.ne_none_iff_exists'.1 fun hnone =>
    hcount (h.last_eq_none_iff.1 hnone)

/-- The place of its first argument is between characters too. -/
theorem opensBetween_of_placed (h : c.Placed text gap behind) : c.OpensBetween text :=
  fun _ => h.opening.isBoundary_stop

/-- What is put between the parentheses of a call fits the text. -/
theorem fits_replacement (h : c.Spans text) (hopens : IsBoundary text (c.openParen + 1))
    (inner : String) : (c.replacement inner).Fits text :=
  ⟨hopens, h.closing, h.open_lt_close⟩

/-- Arguments are appended between the parentheses of a call, behind its last one. -/
theorem addition_within_of_some (hspans : c.Spans text) (arguments : List String) {last : Nat}
    (hlast : c.lastArgumentEnd = some last) :
    c.openParen < (c.addition text arguments).start ∧
      (c.addition text arguments).stop ≤ c.closeParen ∧
      (c.addition text arguments).Fits text := by
  obtain ⟨hedge, hopen, hclose⟩ := hspans.last last hlast
  obtain ⟨hstart, hstop⟩ := appendRange_of_some text hlast
  show c.openParen < (c.appendRange text).1 ∧ (c.appendRange text).2 ≤ c.closeParen ∧ _
  refine ⟨by omega, by omega, ?_, ?_, ?_⟩
  · show IsBoundary text (c.appendRange text).1
    rw [hstart]
    exact hedge
  · show IsBoundary text (c.appendRange text).2
    rcases hstop with hstop | hstop
    · rw [hstop]
      exact hedge
    · rw [hstop]
      exact hspans.closing
  · show (c.appendRange text).1 ≤ (c.appendRange text).2
    omega

/-- Appended arguments go between the parentheses of a call, whether it has arguments or not. -/
theorem addition_within (hplaced : c.Placed text gap behind) (arguments : List String) :
    c.openParen < (c.addition text arguments).start ∧
      (c.addition text arguments).stop ≤ c.closeParen ∧
      (c.addition text arguments).Fits text := by
  cases hlast : c.lastArgumentEnd with
  | some last => exact addition_within_of_some (spans_of_placed hplaced) arguments hlast
  | none =>
      have hrange : c.appendRange text = (c.openParen + 1, c.closeParen) := by
        rw [appendRange, hlast]
      show c.openParen < (c.appendRange text).1 ∧ (c.appendRange text).2 ≤ c.closeParen ∧ _
      refine ⟨?_, ?_, ?_, ?_, ?_⟩
      · rw [hrange]
        exact Nat.lt_succ_self _
      · rw [hrange]
      · show IsBoundary text (c.appendRange text).1
        rw [hrange]
        exact hplaced.opening.isBoundary_stop
      · show IsBoundary text (c.appendRange text).2
        rw [hrange]
        exact hplaced.closing.isBoundary_start
      · show (c.appendRange text).1 ≤ (c.appendRange text).2
        rw [hrange]
        exact hplaced.open_lt_close

/-- The arguments go between the parentheses of the call. -/
theorem argumentEdit_within (hspans : c.Spans text) (hopens : c.OpensBetween text)
    (arguments : List String) :
    c.openParen < (c.argumentEdit text arguments).start ∧
      (c.argumentEdit text arguments).stop ≤ c.closeParen ∧
      (c.argumentEdit text arguments).Fits text := by
  rw [argumentEdit]
  split
  · next hcount =>
      exact ⟨Nat.lt_succ_self _, Nat.le_refl _, fits_replacement hspans (hopens hcount) _⟩
  · next hcount =>
      obtain ⟨last, hlast⟩ := hspans.last_isSome hcount
      exact addition_within_of_some hspans arguments hlast

/-- Import lines and arguments go to different places, in the order in which `fillEdits` lists
them. -/
theorem fillEdits_ordered (hplaced : c.Placed m.text.toList gap behind)
    (hside : m.importOffset ≤ c.start ∨ c.stop ≤ m.importOffset) (arguments lines : List String) :
    (c.fillEdits m arguments lines).Pairwise fun a b => a.stop < b.start := by
  obtain ⟨hopen, hclose, _⟩ :=
    argumentEdit_within (spans_of_placed hplaced) (opensBetween_of_placed hplaced) arguments
  have hstart := hplaced.start_le
  have hstop := hplaced.close_lt_stop
  have hlt := hplaced.open_lt_close
  rw [fillEdits]
  split
  · exact List.pairwise_singleton _ _
  · split
    · refine List.pairwise_pair.2 ?_
      show m.importOffset < _
      omega
    · refine List.pairwise_pair.2 ?_
      show _ < m.importOffset
      omega

/-- Every edit that fills a call fits the text. -/
theorem fits_of_mem_fillEdits (hplaced : c.Placed m.text.toList gap behind)
    (hoffset : IsBoundary m.text.toList m.importOffset) (arguments lines : List String) :
    ∀ e ∈ c.fillEdits m arguments lines, e.Fits m.text.toList := by
  obtain ⟨_, _, hargument⟩ :=
    argumentEdit_within (spans_of_placed hplaced) (opensBetween_of_placed hplaced) arguments
  have himport : (m.importEdit lines).Fits m.text.toList := ⟨hoffset, hoffset, Nat.le_refl _⟩
  intro e he
  rw [fillEdits] at he
  split at he
  · rw [List.mem_singleton.1 he]
    exact hargument
  · split at he
    · rcases List.mem_cons.1 he with rfl | he
      · exact himport
      · rw [List.mem_singleton.1 he]
        exact hargument
    · rcases List.mem_cons.1 he with rfl | he
      · exact hargument
      · rw [List.mem_singleton.1 he]
        exact himport

/-- The edits that fill a call make a splice of the text of its file, and carrying them out in the
order in which they are asked for leaves it. -/
theorem exists_spliced_fillEdits (hplaced : c.Placed m.text.toList gap behind)
    (hoffset : IsBoundary m.text.toList m.importOffset)
    (hside : m.importOffset ≤ c.start ∨ c.stop ≤ m.importOffset) (arguments lines : List String) :
    ∃ result, Spliced 0 m.text.toList (c.fillEdits m arguments lines) result ∧
      applyAll m.text (c.fillRequests m arguments lines) = .ok (String.ofList result) := by
  have hordered := fillEdits_ordered hplaced hside arguments lines
  have hfits := fits_of_mem_fillEdits hplaced hoffset arguments lines
  obtain ⟨result, hresult⟩ := exists_spliced [] hfits (fun _ _ => Nat.zero_le _)
    (hordered.imp fun hab => Nat.le_of_lt hab)
  refine ⟨result, hresult, hresult.applyAll_eq ?_ (perm_fillEdits c m arguments lines)⟩
  refine hordered.imp_of_mem ?_
  intro a b ha hb hab hsame
  have hle := hresult.start_le_stop a ha
  have hstart : a.start = b.start := congrArg Prod.fst hsame
  omega

end CallRecord

end CallFill
