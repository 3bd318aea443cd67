import CallFill.Proofs.Text.Names

/-!
# Words of a text

Blanks part the words of a text and are no part of them: a text is read word by word wherever it is
cut at a blank, and how many blanks stand there does not matter. Cut at another character, a text
has the same words in each piece as the text with its blanks collapsed (`sameWords_collapseBlanks`).
-/

namespace CallFill.Text

variable {p : Char → Bool} {cs ds gap w : List Char} {c : Char}

theorem words_append_cons (cs : List Char) (hc : isBlank c = true) (ds : List Char) :
    words (cs ++ c :: ds) = words cs ++ words ds := by
  rw [words, pieces_append_cons cs hc, List.filter_append]
  rfl

theorem words_cons_of_blank (hc : isBlank c = true) (cs : List Char) :
    words (c :: cs) = words cs :=
  words_append_cons [] hc cs

/-- Without blanks a text is one word. -/
theorem words_of_plain (hne : cs ≠ []) (h : ∀ c ∈ cs, isBlank c = false) : words cs = [cs] := by
  rw [words, pieces_of_forall h, List.filter_cons_of_pos (by simpa using hne)]
  rfl

theorem words_blanks_append (h : ∀ c ∈ gap, isBlank c = true) (cs : List Char) :
    words (gap ++ cs) = words cs := by
  induction gap with
  | nil => rfl
  | cons c gap ih =>
      obtain ⟨hc, hgap⟩ := List.forall_mem_cons.1 h
      rw [List.cons_append, words_cons_of_blank hc, ih hgap]

theorem words_of_blanks (h : ∀ c ∈ gap, isBlank c = true) : words gap = [] := by
  rw [← List.append_nil gap, words_blanks_append h]
  rfl

/-- Blanks between two texts part their words. -/
theorem words_append_blanks (cs : List Char) (hne : gap ≠ []) (h : ∀ c ∈ gap, isBlank c = true)
    (ds : List Char) : words (cs ++ (gap ++ ds)) = words cs ++ words ds := by
  obtain ⟨c, gap, rfl⟩ := List.exists_cons_of_ne_nil hne
  obtain ⟨hc, hgap⟩ := List.forall_mem_cons.1 h
  rw [List.cons_append, words_append_cons cs hc, words_blanks_append hgap]

theorem words_append_of_blanks (cs : List Char) (h : ∀ c ∈ gap, isBlank c = true) :
    words (cs ++ gap) = words cs := by
  cases gap with
  | nil => rw [List.append_nil]
  | cons c gap =>
      have hend := words_append_blanks cs (List.cons_ne_nil c gap) h []
      rwa [List.append_nil, show words [] = [] from rfl, List.append_nil] at hend

/-- What is no blank stands in a word. -/
theorem exists_word_of_mem (hc : c ∈ cs) (hplain : isBlank c = false) : ∃ w ∈ words cs, c ∈ w := by
  rcases exists_piece_of_mem (p := isBlank) hc with hblank | ⟨w, hw, hcw⟩
  · rw [hplain] at hblank
    exact Bool.noConfusion hblank
  · exact ⟨w, List.mem_filter.2 ⟨hw, by simpa using List.ne_nil_of_mem hcw⟩, hcw⟩

/-- The last piece of a text goes on in the first piece of what follows. -/
theorem exists_pieces_append (p : Char → Bool) (cs : List Char) :
    ∃ before last, ∀ ds w ws, pieces p ds = w :: ws →
      pieces p (cs ++ ds) = before ++ (last ++ w) :: ws := by
  induction cs with
  | nil => exact ⟨[], [], fun ds w ws h => h⟩
  | cons c cs ih =>
      obtain ⟨before, last, hpieces⟩ := ih
      by_cases hc : p c = true
      · refine ⟨[] :: before, last, fun ds w ws h => ?_⟩
        rw [List.cons_append, pieces, if_pos hc, hpieces ds w ws h]
        rfl
      · cases before with
        | nil =>
            refine ⟨[], c :: last, fun ds w ws h => ?_⟩
            rw [List.cons_append, pieces, if_neg hc, hpieces ds w ws h]
            rfl
        | cons v before =>
            refine ⟨(c :: v) :: before, last, fun ds w ws h => ?_⟩
            rw [List.cons_append, pieces, if_neg hc, hpieces ds w ws h]
            rfl

/-- Cut at the same characters, the texts have the same words in each piece. -/
def SameWords (p : Char → Bool) (cs ds : List Char) : Prop :=
  (pieces p cs).map words = (pieces p ds).map words

/-- Whatever stands before, and whichever blanks part it from what follows. -/
theorem SameWords.append_blank (h : SameWords p cs ds) (hp : ∀ c, isBlank c = true → p c = false)
    {b c : Char} (hb : isBlank b = true) (hc : isBlank c = true) (start : List Char) :
    SameWords p (start ++ b :: cs) (start ++ c :: ds) := by
  obtain ⟨before, last, hpieces⟩ := exists_pieces_append p start
  obtain ⟨w, ws, hw⟩ := List.exists_cons_of_ne_nil (pieces_ne_nil p cs)
  obtain ⟨v, vs, hv⟩ := List.exists_cons_of_ne_nil (pieces_ne_nil p ds)
  rw [SameWords, hw, hv, List.map_cons, List.map_cons] at h
  obtain ⟨hhead, htail⟩ := List.cons.inj h
  have hcs : pieces p (b :: cs) = (b :: w) :: ws := by rw [pieces, hp b hb, hw]; rfl
  have hds : pieces p (c :: ds) = (c :: v) :: vs := by rw [pieces, hp c hc, hv]; rfl
  rw [SameWords, hpieces _ _ _ hcs, hpieces _ _ _ hds]
  simp only [List.map_append, List.map_cons, words_append_cons last hb, words_append_cons last hc,
    hhead, htail]

/-- A blank at the end is no part of a word. -/
theorem sameWords_concat_blank (hp : ∀ c, isBlank c = true → p c = false)
    (hc : isBlank c = true) (cs : List Char) : SameWords p cs (cs ++ [c]) := by
  obtain ⟨before, last, hpieces⟩ := exists_pieces_append p cs
  have hend : pieces p (cs ++ []) = _ := hpieces [] [] [] rfl
  have hblank : pieces p [c] = [[c]] := pieces_of_forall (by simpa using hp c hc)
  rw [List.append_nil] at hend
  rw [SameWords, hend, hpieces _ _ _ hblank, List.map_append, List.map_append, List.map_cons,
    List.map_cons, words_append_cons last hc, List.append_nil]
  show _ = _ ++ (words last ++ []) :: _
  rw [List.append_nil]

theorem sameWords_cons_blank (hp : ∀ c, isBlank c = true → p c = false) (hc : isBlank c = true)
    (cs : List Char) : SameWords p cs (c :: cs) := by
  obtain ⟨w, ws, hw⟩ := List.exists_cons_of_ne_nil (pieces_ne_nil p cs)
  rw [SameWords, pieces, hp c hc, hw]
  show words w :: _ = words (c :: w) :: _
  rw [words_cons_of_blank hc]

/-- A text is blank at its start, is one word, or goes on after a word and a blank. -/
theorem blank_or_word (c : Char) (cs : List Char) :
    isBlank c = true ∨ (∀ d ∈ c :: cs, isBlank d = false) ∨
      ∃ w b rest, w ≠ [] ∧ (∀ d ∈ w, isBlank d = false) ∧ isBlank b = true ∧
        c :: cs = w ++ b :: rest := by
  by_cases hc : isBlank c = true
  · exact Or.inl hc
  · refine Or.inr ?_
    have hsplit := List.takeWhile_append_dropWhile (p := fun d => !isBlank d) (l := c :: cs)
    have hplain : ∀ d ∈ (c :: cs).takeWhile (fun d => !isBlank d), isBlank d = false :=
      fun d hd => by simpa using List.all_eq_true.1 List.all_takeWhile d hd
    cases hrest : (c :: cs).dropWhile fun d => !isBlank d with
    | nil =>
        rw [hrest, List.append_nil] at hsplit
        exact Or.inl (hsplit ▸ hplain)
    | cons b rest =>
        refine Or.inr ⟨_, b, rest, ?_, hplain, ?_, (hrest ▸ hsplit).symm⟩
        · rw [List.takeWhile_cons_of_pos (by simpa using hc)]
          exact List.cons_ne_nil _ _
        · have hb := List.head_dropWhile_not (fun d => !isBlank d) (l := c :: cs) (by simp [hrest])
          simpa [hrest] using hb

/-- Collapsing the blanks of a text changes no words, also where it is cut. -/
theorem sameWords_collapseBlanks (hp : ∀ c, isBlank c = true → p c = false) (cs : List Char) :
    SameWords p (collapseBlanks cs) cs := by
  cases cs with
  | nil => rfl
  | cons c cs =>
      -- the recursion is on what follows the first blank, not on the list
      rcases blank_or_word c cs with hc | hplain | ⟨w, b, rest, hne, hplain, hb, hsplit⟩
      · have ih := sameWords_collapseBlanks hp cs
        rw [collapseBlanks, words_cons_of_blank hc, ← collapseBlanks]
        exact ih.trans (sameWords_cons_blank hp hc cs)
      · rw [collapseBlanks, words_of_plain (List.cons_ne_nil c cs) hplain,
          List.intercalate_singleton]
        rfl
      · have hshorter : rest.length < (c :: cs).length := by
          rw [hsplit, List.length_append, List.length_cons]
          omega
        have ih := sameWords_collapseBlanks hp rest
        have hspace : isBlank ' ' = true := rfl
        rw [hsplit, collapseBlanks, words_append_cons w hb, words_of_plain hne hplain]
        rw [collapseBlanks] at ih
        cases hwords : words rest with
        | nil =>
            rw [hwords] at ih
            rw [List.append_nil, List.intercalate_singleton]
            exact (sameWords_concat_blank hp hspace w).trans (ih.append_blank hp hspace hb w)
        | cons v vs =>
            rw [hwords] at ih
            rw [List.singleton_append, List.intercalate_cons_cons]
            rw [List.append_assoc]
            exact ih.append_blank hp hspace hb w
termination_by cs.length
decreasing_by
  · exact Nat.lt_succ_self cs.length
  · exact hshorter

end CallFill.Text
