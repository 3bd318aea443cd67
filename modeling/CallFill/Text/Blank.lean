/-!
# Blanks

The characters that count as white space (the `White_Space` property), and what is built on them:
trimming, and the words of a text.
-/

namespace CallFill.Text

/-- Whether the character is white space. -/
def isBlank (c : Char) : Bool :=
  let n := c.toNat
  (9 ≤ n && n ≤ 13) || n == 0x20 || n == 0x85 || n == 0xA0 || n == 0x1680 ||
    (0x2000 ≤ n && n ≤ 0x200A) || n == 0x2028 || n == 0x2029 || n == 0x202F || n == 0x205F ||
    n == 0x3000

/-- The text without the blanks at its start. -/
def trimStart (cs : List Char) : List Char :=
  cs.dropWhile isBlank

/-- The text without the blanks at its end. -/
def trimEnd (cs : List Char) : List Char :=
  (cs.reverse.dropWhile isBlank).reverse

/-- The text without the blanks at both ends. -/
def trim (cs : List Char) : List Char :=
  trimEnd (trimStart cs)

/-- The pieces of a text between the characters that satisfy `p`: one more than there are such
characters, and empty where two of them meet. -/
def pieces (p : Char → Bool) : List Char → List (List Char)
  | [] => [[]]
  | c :: cs =>
    if p c then [] :: pieces p cs
    else
      match pieces p cs with
      | [] => [[c]]
      | w :: ws => (c :: w) :: ws

theorem pieces_ne_nil (p : Char → Bool) (cs : List Char) : pieces p cs ≠ [] := by
  cases cs with
  | nil => simp [pieces]
  | cons c cs =>
    simp only [pieces]
    split
    · simp
    · split <;> simp

/-- A text without the characters to cut at is one piece. -/
theorem pieces_of_forall {p : Char → Bool} {cs : List Char} (h : ∀ c ∈ cs, p c = false) :
    pieces p cs = [cs] := by
  induction cs with
  | nil => rfl
  | cons c cs ih =>
    rw [pieces, h c List.mem_cons_self, ih fun d hd => h d (List.mem_cons_of_mem c hd)]
    rfl

/-- No piece reaches over a character to cut at. -/
theorem pieces_append_cons {p : Char → Bool} (cs : List Char) {sep : Char} (hsep : p sep = true)
    (rest : List Char) : pieces p (cs ++ sep :: rest) = pieces p cs ++ pieces p rest := by
  induction cs with
  | nil =>
    show pieces p (sep :: rest) = [] :: pieces p rest
    rw [pieces, if_pos hsep]
  | cons c cs ih =>
    rw [List.cons_append, pieces, pieces, ih]
    split
    · rfl
    · obtain ⟨w, ws, hpieces⟩ := List.exists_cons_of_ne_nil (pieces_ne_nil p cs)
      rw [hpieces]
      rfl

/-- A piece ends at the first character to cut at. -/
theorem pieces_append {p : Char → Bool} {cs : List Char} (h : ∀ c ∈ cs, p c = false) {sep : Char}
    (hsep : p sep = true) (rest : List Char) :
    pieces p (cs ++ sep :: rest) = cs :: pieces p rest := by
  rw [pieces_append_cons cs hsep, pieces_of_forall h]
  rfl

/-- The first piece is what stands before the first separator. -/
theorem exists_pieces_eq_cons (sep : Char) (cs : List Char) :
    ∃ further, pieces (· == sep) cs = cs.takeWhile (· != sep) :: further := by
  induction cs with
  | nil => exact ⟨[], rfl⟩
  | cons c cs ih =>
    obtain ⟨further, hpieces⟩ := ih
    rw [pieces, hpieces]
    by_cases hc : (c == sep) = true
    · rw [if_pos hc, List.takeWhile_cons_of_neg (by simpa using hc)]
      exact ⟨_, rfl⟩
    · rw [if_neg hc, List.takeWhile_cons_of_pos (by simpa using hc)]
      exact ⟨further, rfl⟩

/-- The pieces of a text with the separators between them are the text. -/
theorem intercalate_pieces (sep : Char) (cs : List Char) :
    [sep].intercalate (pieces (· == sep) cs) = cs := by
  induction cs with
  | nil => rfl
  | cons c cs ih =>
    rw [pieces]
    split
    · next hc =>
      rw [List.intercalate_cons_of_ne_nil (pieces_ne_nil _ cs), ih, beq_iff_eq.1 hc]
      rfl
    · obtain ⟨w, ws, hpieces⟩ := List.exists_cons_of_ne_nil (pieces_ne_nil (· == sep) cs)
      rw [hpieces] at ih ⊢
      cases ws with
      | nil => rw [List.intercalate_singleton] at ih ⊢; rw [ih]
      | cons v ws =>
        rw [List.intercalate_cons_cons] at ih ⊢
        rw [List.cons_append, List.cons_append, ih]

/-- Cutting a text at its separators gives the parts that it was made of. -/
theorem pieces_intercalate {sep : Char} {parts : List (List Char)} (hne : parts ≠ [])
    (hplain : ∀ part ∈ parts, sep ∉ part) :
    pieces (· == sep) ([sep].intercalate parts) = parts := by
  have hkept : ∀ part ∈ parts, ∀ c ∈ part, (c == sep) = false := by
    intro part hpart c hc
    refine beq_eq_false_iff_ne.2 ?_
    rintro rfl
    exact hplain part hpart hc
  induction parts with
  | nil => exact absurd rfl hne
  | cons part parts ih =>
      cases parts with
      | nil =>
          rw [List.intercalate_singleton]
          exact pieces_of_forall (hkept part List.mem_cons_self)
      | cons next parts =>
          have hrest := ih (List.cons_ne_nil _ _)
            (fun other hother => hplain other (List.mem_cons_of_mem _ hother))
            (fun other hother => hkept other (List.mem_cons_of_mem _ hother))
          rw [List.intercalate_cons_cons, List.append_assoc, List.singleton_append,
            pieces_append (hkept part List.mem_cons_self) (beq_self_eq_true sep), hrest]

/-- The maximal runs of characters that are not blank. -/
def words (cs : List Char) : List (List Char) :=
  (pieces isBlank cs).filter (· ≠ [])

/-- The words of a text with one space between each two. -/
def collapseBlanks (cs : List Char) : List Char :=
  [' '].intercalate (words cs)

/-- The string without the blanks at both ends. -/
def trimmed (s : String) : String :=
  String.ofList (trim s.toList)

end CallFill.Text
