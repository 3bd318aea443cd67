import CallFill.Proofs.Editing.Commit

/-!
# Edits made at once

Edits are made one after the other, on a text that each of them changes. Edits that lie apart, even
if one starts where another ends, do not notice: what is made later lies before all that was made,
and there the text is still the one they were written for (`TextEdit.Spliced.isBoundary_iff`). So
such edits are made exactly if each of them fits the text as it was. Then the text is what they
leave of the old one with their own texts in between (`TextEdit.segments`), and the order in which
they are listed plays no part (`TextEdit.applyAll_of_apart`).

Nothing of this holds of edits that overlap (`Project.commitEdits_of_nested`).
-/

namespace CallFill.TextEdit

open Text

/-- The pieces of a text that edits in the order of the text leave from an offset on, with the texts
of the edits between them. -/
def segments (cs : List Char) : Nat → List TextEdit → List (List Char)
  | pos, [] => [slice cs pos (byteLength cs)]
  | pos, e :: es => slice cs pos e.start :: e.text.toList :: segments cs e.stop es

variable {pos n : Nat} {cs result : List Char} {e : TextEdit} {es edits edits' : List TextEdit}

/-- A splice consists of the segments that its edits leave, and of their texts. -/
theorem Spliced.eq_segments (h : Spliced pos cs es result) (before : List Char)
    (hpos : byteLength before = pos) : result = (segments (before ++ cs) pos es).flatten := by
  induction h generalizing before with
  | kept pos cs =>
      have hrest : Holds (before ++ cs) pos (byteLength (before ++ cs)) cs :=
        ⟨before, [], by rw [List.append_nil], hpos, by rw [byteLength_append, hpos]⟩
      rw [segments, List.flatten_singleton, hrest.slice_eq]
  | @edited pos kept cut rest result e es hstart hstop h ih =>
      have hkept : Holds (before ++ (kept ++ (cut ++ rest))) pos e.start kept :=
        ⟨before, cut ++ rest, rfl, hpos, hstart.symm⟩
      have hlength : byteLength (before ++ kept ++ cut) = e.stop := by
        rw [byteLength_append, byteLength_append]
        omega
      have hlater := ih _ hlength
      rw [List.append_assoc, List.append_assoc] at hlater
      rw [segments, List.flatten_cons, List.flatten_cons, hkept.slice_eq, ← hlater]

/-- Before the edits of a splice, characters start where they started. -/
theorem Spliced.isBoundary_iff (h : Spliced 0 cs es result) (hn : ∀ e ∈ es, n ≤ e.start) :
    IsBoundary result n ↔ IsBoundary cs n := by
  cases h with
  | kept => exact Iff.rfl
  | @edited _ kept cut rest result e es hstart hstop h =>
      have hle : n ≤ byteLength kept := by
        have hle := hn e List.mem_cons_self
        omega
      have hfront : ∀ more more' : List Char,
          IsBoundary (kept ++ more) n → IsBoundary (kept ++ more') n := by
        rintro more more' ⟨before, after, htext, rfl⟩
        obtain ⟨mid, hkept, -⟩ := append_of_byteLength_le htext.symm hle
        exact ⟨before, mid ++ more', by rw [hkept, List.append_assoc], rfl⟩
      exact ⟨hfront _ _, hfront _ _⟩

/-- Only an edit that fits a text is made. -/
theorem fits_of_splice? {replacement : List Char}
    (h : splice? cs e.start e.stop replacement = some result) : e.Fits cs := by
  rw [splice?] at h
  split at h
  · next hle =>
      obtain ⟨⟨before, rest⟩, hfirst, h⟩ := Option.bind_eq_some_iff.1 h
      obtain ⟨⟨cut, after⟩, hsecond, -⟩ := Option.bind_eq_some_iff.1 h
      obtain ⟨rfl, hstart⟩ := splitAt?_eq_some_iff.1 hfirst
      obtain ⟨rfl, hcut⟩ := splitAt?_eq_some_iff.1 hsecond
      have hholds : Holds (before ++ (cut ++ after)) e.start e.stop cut :=
        ⟨before, after, rfl, hstart, by omega⟩
      exact ⟨hholds.isBoundary_start, hholds.isBoundary_stop, hle⟩
  · cases h

theorem apply_of_not_fits (h : ¬e.Fits cs) :
    apply cs e = .error (.rejected (.outsideDocument e.start e.stop)) := by
  rw [apply]
  cases hmade : splice? cs e.start e.stop e.text.toList with
  | some result => exact absurd (fits_of_splice? hmade) h
  | none => rfl

/-- Edits in the order of the text, made from the last to the first, are all made, or one of them is
rejected that did not fit the text before. -/
theorem applyInOrder_reverse_cases (hle : ∀ e ∈ es, e.start ≤ e.stop)
    (hordered : es.Pairwise fun a b => a.stop ≤ b.start) :
    (∀ e ∈ es, e.Fits cs) ∨ ∃ e ∈ es, ¬e.Fits cs ∧
      applyInOrder cs es.reverse = .error (.rejected (.outsideDocument e.start e.stop)) := by
  induction es with
  | nil => exact Or.inl fun e he => absurd he List.not_mem_nil
  | cons e es ih =>
      obtain ⟨hfirst, hordered⟩ := List.pairwise_cons.1 hordered
      obtain ⟨hself, hle⟩ := List.forall_mem_cons.1 hle
      -- the first edit in the text is the last one that is made
      have hmade : applyInOrder cs (e :: es).reverse =
          applyInOrder cs es.reverse >>= fun mid => apply mid e := by
        rw [List.reverse_cons, applyInOrder, List.foldlM_append]
        exact bind_congr fun mid => bind_pure (apply mid e)
      rcases ih hle hordered with hfits | ⟨f, hf, hunfit, herror⟩
      · by_cases hfit : e.Fits cs
        · exact Or.inl (List.forall_mem_cons.2 ⟨hfit, hfits⟩)
        · refine Or.inr ⟨e, List.mem_cons_self, hfit, ?_⟩
          obtain ⟨mid, hmid⟩ := exists_spliced [] hfits (fun _ _ => Nat.zero_le _) hordered
          have hlater : applyInOrder cs es.reverse = .ok mid := hmid.applyInOrder_reverse [] rfl
          rw [hmade, hlater]
          refine apply_of_not_fits fun hmid' => hfit ⟨?_, ?_, hself⟩
          · refine (hmid.isBoundary_iff fun f hf => ?_).1 hmid'.start_isBoundary
            have hstart := hfirst f hf
            omega
          · exact (hmid.isBoundary_iff hfirst).1 hmid'.stop_isBoundary
      · refine Or.inr ⟨f, List.mem_cons_of_mem e hf, hunfit, ?_⟩
        rw [hmade, herror]
        rfl

/-- Of edits that lie apart, no two come before each other. -/
theorem eq_of_comesFirst (h : edits.Pairwise Apart) {f : TextEdit} (he : e ∈ edits) (hf : f ∈ edits)
    (hef : comesFirst e f = true) (hfe : comesFirst f e = true) : e = f := by
  rw [comesFirst_iff] at hef hfe
  exact eq_of_same_range (h.imp fun hapart => hapart.2) he hf (by omega) (by omega)

/-- **Edits that lie apart are made at once.** They are made exactly if every one of them fits the
text; then the new text consists of the pieces that they leave of the old one and of their own
texts, in the order of the text. Otherwise an edit that does not fit is rejected. Listing the edits
in another order changes nothing. -/
theorem applyAll_of_apart (text : String) (hle : ∀ e ∈ edits, e.start ≤ e.stop)
    (hapart : edits.Pairwise Apart) :
    ((∃ new, applyAll text edits = .ok new) ↔ ∀ e ∈ edits, e.Fits text.toList) ∧
    (∀ new, applyAll text edits = .ok new → ∃ es, es.Perm edits ∧
      (es.Pairwise fun a b => a.stop ≤ b.start) ∧
      new = String.ofList (segments text.toList 0 es).flatten) ∧
    (∀ err, applyAll text edits = .error err → ∃ e ∈ edits, ¬e.Fits text.toList ∧
      err = .rejected (.outsideDocument e.start e.stop)) ∧
    ∀ edits', edits'.Perm edits → applyAll text edits' = applyAll text edits := by
  have hperm := perm_inTextOrder edits
  have hordered := pairwise_inTextOrder hle hapart
  have hle' : ∀ e ∈ inTextOrder edits, e.start ≤ e.stop :=
    fun e he => hle e (hperm.mem_iff.1 he)
  have hagain : ∀ edits', edits'.Perm edits → applyAll text edits' = applyAll text edits := by
    intro edits' hedits'
    rw [applyAll, applyAll, mergeSort_eq_of_perm comesFirst_trans comesFirst_total
      (fun _ he _ hf => eq_of_comesFirst hapart he hf) hedits'.symm]
  have hcases : (∀ e ∈ inTextOrder edits, e.Fits text.toList) ∨ _ :=
    applyInOrder_reverse_cases hle' hordered
  rcases hcases with hfits | ⟨e, he, hunfit, herror⟩
  · have hfits' : ∀ e ∈ edits, e.Fits text.toList := fun e he => hfits e (hperm.mem_iff.2 he)
    obtain ⟨result, hspliced, hmade⟩ := exists_spliced_of_apart hfits' hapart
    refine ⟨⟨fun _ => hfits', fun _ => ⟨_, hmade⟩⟩, ?_, ?_, hagain⟩
    · intro new hnew
      obtain rfl := Except.ok.inj (hmade.symm.trans hnew)
      exact ⟨inTextOrder edits, hperm, hordered, congrArg _ (hspliced.eq_segments [] rfl)⟩
    · intro err herr
      cases hmade.symm.trans herr
  · have herror' : applyAll text edits = .error (.rejected (.outsideDocument e.start e.stop)) := by
      rw [inTextOrder, List.reverse_reverse] at herror
      rw [applyAll, herror]
      rfl
    refine ⟨⟨?_, fun hfits => absurd (hfits e (hperm.mem_iff.1 he)) hunfit⟩, ?_, ?_, hagain⟩
    · rintro ⟨new, hnew⟩
      cases herror'.symm.trans hnew
    · intro new hnew
      cases herror'.symm.trans hnew
    · intro err herr
      exact ⟨e, hperm.mem_iff.1 he, hunfit, (Except.error.inj (herror'.symm.trans herr)).symm⟩

/-- A piece behind an insertion, the insertion, and the piece before it, which ends where they
start. -/
def touching : List TextEdit :=
  [⟨3, 5, "p"⟩, ⟨3, 3, "X"⟩, ⟨0, 3, "J"⟩]

/-- Pieces on both sides of an insertion are replaced in a text whose characters have one byte or
two. -/
theorem applyAll_touching :
    (∀ e ∈ touching, e.start ≤ e.stop) ∧ touching.Pairwise Apart ∧
    (∀ e ∈ touching, e.Fits "héllo".toList) ∧
    (segments "héllo".toList 0 touching.reverse).flatten = "JXpo".toList ∧
    applyAll "héllo" touching = .ok "JXpo" ∧
    ∀ edits', edits'.Perm touching → applyAll "héllo" edits' = .ok "JXpo" := by
  have hle : ∀ e ∈ touching, e.start ≤ e.stop := by decide
  have hapart : touching.Pairwise Apart := by
    simp [touching, Apart]
  have hmade : applyAll "héllo" touching = .ok "JXpo" := by
    rw [applyAll_of_pairwise (by decide)]
    rfl
  obtain ⟨hfits, -, -, hagain⟩ := applyAll_of_apart "héllo" hle hapart
  exact ⟨hle, hapart, hfits.1 ⟨_, hmade⟩, by decide, hmade,
    fun edits' hperm => (hagain edits' hperm).trans hmade⟩

end CallFill.TextEdit
