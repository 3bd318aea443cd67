import CallFill.Proofs.Text.Boundary
import CallFill.TextEdit

/-!
# Edits as one simultaneous splice

Edits that do not overlap can be thought of as made all at once: the text is what lies before the
first, the text of the first, what lies between it and the second, and so on (`Spliced`). Making
them one after the other from the last to the first comes to the same, since an edit moves nothing
before it; and the order in which a list holds the edits does not matter, since they are sorted.
-/

namespace CallFill.TextEdit

open Text

/-- A text from a byte offset on, and what it becomes by edits in the order of the text. -/
inductive Spliced : Nat → List Char → List TextEdit → List Char → Prop where
  | kept (pos : Nat) (cs : List Char) : Spliced pos cs [] cs
  | edited {pos : Nat} {before cut rest result : List Char} {e : TextEdit} {es : List TextEdit}
      (hstart : e.start = pos + byteLength before) (hstop : e.stop = e.start + byteLength cut)
      (h : Spliced e.stop rest es result) :
      Spliced pos (before ++ (cut ++ rest)) (e :: es) (before ++ (e.text.toList ++ result))

/-- An edit of a range of whole characters. -/
structure Fits (cs : List Char) (e : TextEdit) : Prop where
  start_isBoundary : IsBoundary cs e.start
  stop_isBoundary : IsBoundary cs e.stop
  start_le_stop : e.start ≤ e.stop

variable {pos : Nat} {cs result : List Char} {e : TextEdit} {es edits : List TextEdit}

/-- An edit that fits a text takes up a piece of it. -/
theorem Fits.holds (h : e.Fits cs) : ∃ piece, Holds cs e.start e.stop piece :=
  exists_holds h.start_isBoundary h.stop_isBoundary h.start_le_stop

/-- The edits of a splice lie behind the offset where it begins. -/
theorem Spliced.le_start (h : Spliced pos cs es result) : ∀ e ∈ es, pos ≤ e.start := by
  induction h with
  | kept pos cs =>
      intro e he
      exact absurd he List.not_mem_nil
  | edited hstart hstop h ih =>
      intro e he
      rcases List.mem_cons.1 he with rfl | he
      · omega
      · have hle := ih e he
        omega

/-- The edits of a splice end no earlier than they start. -/
theorem Spliced.start_le_stop (h : Spliced pos cs es result) : ∀ e ∈ es, e.start ≤ e.stop := by
  induction h with
  | kept pos cs =>
      intro e he
      exact absurd he List.not_mem_nil
  | edited hstart hstop h ih =>
      intro e he
      rcases List.mem_cons.1 he with rfl | he
      · omega
      · exact ih e he

/-- Each edit of a splice ends before the next one starts. -/
theorem Spliced.pairwise (h : Spliced pos cs es result) :
    es.Pairwise fun a b => a.stop ≤ b.start := by
  induction h with
  | kept pos cs => exact List.Pairwise.nil
  | edited hstart hstop h ih => exact List.pairwise_cons.2 ⟨h.le_start, ih⟩

/-- Edits of whole characters that follow each other make a splice. -/
theorem exists_spliced (before : List Char) (hfits : ∀ e ∈ es, e.Fits (before ++ cs))
    (hle : ∀ e ∈ es, byteLength before ≤ e.start)
    (hordered : es.Pairwise fun a b => a.stop ≤ b.start) :
    ∃ result, Spliced (byteLength before) cs es result := by
  induction es generalizing before cs with
  | nil => exact ⟨cs, Spliced.kept _ cs⟩
  | cons e es ih =>
      have hfit := hfits e List.mem_cons_self
      obtain ⟨hfirst, hrest⟩ := List.pairwise_cons.1 hordered
      obtain ⟨kept, hkept⟩ := exists_holds ⟨before, cs, rfl, rfl⟩ hfit.start_isBoundary
        (hle e List.mem_cons_self)
      obtain ⟨cut, hcut⟩ := hfit.holds
      obtain ⟨front, rest, hcs, hfront, hstop⟩ := hkept.append hcut
      obtain ⟨_, _, _, _, hlen⟩ := hkept
      obtain ⟨_, _, _, _, hlen'⟩ := hcut
      obtain ⟨rfl, htail⟩ := append_inj_of_byteLength hcs hfront.symm
      subst htail
      -- the edits that follow find their offsets with all up to here before them
      have hpos : byteLength (before ++ (kept ++ cut)) = e.stop := by
        rw [byteLength_append]
        exact hstop
      have hsame : before ++ (kept ++ cut ++ rest) = before ++ (kept ++ cut) ++ rest :=
        (List.append_assoc _ _ _).symm
      rw [hsame] at hfits
      obtain ⟨result, hresult⟩ := ih _ (fun f hf => hfits f (List.mem_cons_of_mem e hf))
        (fun f hf => by rw [hpos]; exact hfirst f hf) hrest
      rw [hpos] at hresult
      rw [List.append_assoc]
      exact ⟨_, Spliced.edited hlen.symm hlen'.symm hresult⟩

/-- An edit that finds its range replaces the piece there. -/
theorem apply_append (before cut rest : List Char) (hstart : e.start = byteLength before)
    (hstop : e.stop = e.start + byteLength cut) :
    apply (before ++ (cut ++ rest)) e = .ok (before ++ (e.text.toList ++ rest)) := by
  rw [apply, hstop, hstart, splice?_append, List.append_assoc]

/-- Edits made from the last to the first leave the splice of all of them. -/
theorem Spliced.applyInOrder_reverse (h : Spliced pos cs es result) (before : List Char)
    (hpos : byteLength before = pos) :
    applyInOrder (before ++ cs) es.reverse = .ok (before ++ result) := by
  induction h generalizing before with
  | kept pos cs => rfl
  | @edited pos kept cut rest result e es hstart hstop h ih =>
      have hlen : byteLength (before ++ kept ++ cut) = e.stop := by
        rw [byteLength_append, byteLength_append]
        omega
      have hlater := ih _ hlen
      have htext : before ++ (kept ++ (cut ++ rest)) = before ++ kept ++ cut ++ rest := by
        rw [List.append_assoc, List.append_assoc]
      have hkept : e.start = byteLength (before ++ kept) := by
        rw [byteLength_append]
        omega
      have hfirst := apply_append (before ++ kept) cut result hkept hstop
      rw [applyInOrder] at hlater ⊢
      rw [List.reverse_cons, List.foldlM_append, htext, hlater]
      show List.foldlM apply (before ++ kept ++ cut ++ result) [e] = _
      rw [List.foldlM_cons, List.append_assoc (before ++ kept), hfirst, List.append_assoc]
      rfl

/-! ## The order of the edits -/

/-- Edits are made from the end of the text on, and of two at one place the longer one first. -/
theorem comesFirst_iff {a b : TextEdit} :
    a.comesFirst b = true ↔ b.start < a.start ∨ (b.start = a.start ∧ b.stop ≤ a.stop) := by
  rw [comesFirst, Bool.or_eq_true, Bool.and_eq_true, decide_eq_true_iff, beq_iff_eq,
    decide_eq_true_iff]

/-- The order in which edits are made is transitive. -/
theorem comesFirst_trans (a b c : TextEdit) (hab : a.comesFirst b = true)
    (hbc : b.comesFirst c = true) : a.comesFirst c = true := by
  rw [comesFirst_iff] at hab hbc ⊢
  omega

theorem comesFirst_total (a b : TextEdit) : (a.comesFirst b || b.comesFirst a) = true := by
  rw [Bool.or_eq_true, comesFirst_iff, comesFirst_iff]
  omega

/-- The edits of a splice, last one first, are in the order in which they are made. -/
theorem Spliced.pairwise_reverse (h : Spliced pos cs es result) :
    es.reverse.Pairwise fun a b => a.comesFirst b = true := by
  rw [List.pairwise_reverse]
  have hle := h.start_le_stop
  have hordered := h.pairwise
  clear h
  induction es with
  | nil => exact List.Pairwise.nil
  | cons e es ih =>
      obtain ⟨hfirst, hrest⟩ := List.pairwise_cons.1 hordered
      refine List.pairwise_cons.2 ⟨?_, ih (fun f hf => hle f (List.mem_cons_of_mem e hf)) hrest⟩
      intro f hf
      have hef := hfirst f hf
      have he := hle e List.mem_cons_self
      have hf := hle f (List.mem_cons_of_mem e hf)
      rw [comesFirst_iff]
      omega

/-- Two edits of a list with different ranges are found apart by their ranges. -/
theorem eq_of_same_range {a b : TextEdit}
    (hranges : es.Pairwise fun a b => (a.start, a.stop) ≠ (b.start, b.stop)) (ha : a ∈ es)
    (hb : b ∈ es) (hstart : a.start = b.start) (hstop : a.stop = b.stop) : a = b := by
  induction es with
  | nil => exact absurd ha List.not_mem_nil
  | cons e es ih =>
      obtain ⟨hfirst, hrest⟩ := List.pairwise_cons.1 hranges
      rcases List.mem_cons.1 ha with rfl | ha' <;> rcases List.mem_cons.1 hb with rfl | hb'
      · rfl
      · exact absurd (by rw [hstart, hstop]) (hfirst b hb')
      · exact absurd (by rw [hstart, hstop]) (hfirst a ha')
      · exact ih hrest ha' hb'

/-- Edits of different ranges that do not overlap leave their splice, in whatever order they are
listed. -/
theorem Spliced.applyAll_eq {text : String} (h : Spliced 0 text.toList es result)
    (hranges : es.Pairwise fun a b => (a.start, a.stop) ≠ (b.start, b.stop))
    (hperm : edits.Perm es) : applyAll text edits = .ok (String.ofList result) := by
  have hsorted : edits.mergeSort comesFirst = es.reverse := by
    refine List.Perm.eq_of_pairwise ?_ (List.pairwise_mergeSort comesFirst_trans comesFirst_total _)
      h.pairwise_reverse (((List.mergeSort_perm _ _).trans hperm).trans (List.reverse_perm es).symm)
    intro a b ha hb hab hba
    have ha' : a ∈ es := hperm.mem_iff.1 ((List.mergeSort_perm _ _).mem_iff.1 ha)
    rw [comesFirst_iff] at hab hba
    exact eq_of_same_range hranges ha' (List.mem_reverse.1 hb) (by omega) (by omega)
  have hmade := h.applyInOrder_reverse [] rfl
  rw [List.nil_append, List.nil_append] at hmade
  rw [applyAll, hsorted, hmade]
  rfl

end CallFill.TextEdit
