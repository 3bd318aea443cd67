import CallFill.Text.Dotted
import CallFill.Text.Identifier

/-!
# Names in a text

An identifier, and a dotted name, which is identifiers with dots between them. None of the marks
that an expression sets around its names may stand in a name, so where a name that is followed by
such a mark ends is not in doubt (`name_append_inj`).
-/

namespace CallFill.Text

/-- Whether the text is an identifier. -/
def IsIdentifier : List Char → Prop
  | [] => False
  | c :: cs => isIdentifierStart c = true ∧ ∀ d ∈ cs, isIdentifierRest d = true

instance (cs : List Char) : Decidable (IsIdentifier cs) :=
  match cs with
  | [] => .isFalse id
  | _ :: cs =>
    -- along the text, not over all characters
    @instDecidableAnd _ _ _ (List.decidableBAll (isIdentifierRest · = true) cs)

/-- Whether the text is one or more identifiers with dots between them. -/
def IsDottedName (cs : List Char) : Prop :=
  ∀ part ∈ pieces (· == '.') cs, IsIdentifier part

instance (cs : List Char) : Decidable (IsDottedName cs) :=
  List.decidableBAll IsIdentifier (pieces (· == '.') cs)

/-- Whether the character may stand in a dotted name. -/
def isNameChar (c : Char) : Bool :=
  isIdentifierRest c || c == '.'

/-- The letters and digits, by their code points. -/
theorem isAlphanum_iff {c : Char} : c.isAlphanum = true ↔
    (48 ≤ c.toNat ∧ c.toNat ≤ 57) ∨ (65 ≤ c.toNat ∧ c.toNat ≤ 90) ∨
      (97 ≤ c.toNat ∧ c.toNat ≤ 122) := by
  have hdigit : c.isDigit = true ↔ 48 ≤ c.toNat ∧ c.toNat ≤ 57 :=
    Bool.and_eq_true_iff.trans (and_congr decide_eq_true_iff decide_eq_true_iff)
  have hupper : c.isUpper = true ↔ 65 ≤ c.toNat ∧ c.toNat ≤ 90 := decide_eq_true_iff
  have hlower : c.isLower = true ↔ 97 ≤ c.toNat ∧ c.toNat ≤ 122 :=
    Bool.and_eq_true_iff.trans (and_congr decide_eq_true_iff decide_eq_true_iff)
  have hletter : c.isAlpha = true ↔ c.isUpper = true ∨ c.isLower = true := Bool.or_eq_true_iff
  have hall : c.isAlphanum = true ↔ c.isAlpha = true ∨ c.isDigit = true := Bool.or_eq_true_iff
  rw [hall, hletter, hupper, hlower, hdigit, or_comm]

/-- The text opens as a name does. -/
def OpensName (cs : List Char) : Prop :=
  ∃ c rest, cs = c :: rest ∧ isIdentifierStart c = true

variable {cs xs ys : List Char}

/-- How a text opens does not depend on its end. -/
theorem OpensName.append (h : OpensName cs) (rest : List Char) : OpensName (cs ++ rest) := by
  obtain ⟨c, cs, rfl, hc⟩ := h
  exact ⟨c, cs ++ rest, rfl, hc⟩

/-- A text that begins with another character does not open like a name. -/
theorem not_opensName_cons {c : Char} (hc : isIdentifierStart c = false) (cs : List Char) :
    ¬ OpensName (c :: cs) := by
  rintro ⟨d, rest, heq, hd⟩
  rw [← (List.cons.inj heq).1, hc] at hd
  exact Bool.noConfusion hd

/-- An identifier opens like a name. -/
theorem IsIdentifier.opensName (h : IsIdentifier cs) : OpensName cs := by
  cases cs with
  | nil => exact h.elim
  | cons c cs => exact ⟨c, cs, rfl, h.1⟩

theorem IsIdentifier.isNameChar (h : IsIdentifier cs) : ∀ d ∈ cs, isNameChar d = true := by
  cases cs with
  | nil => exact h.elim
  | cons c cs =>
      intro d hd
      rw [Text.isNameChar, Bool.or_eq_true]
      rcases List.mem_cons.1 hd with rfl | hd
      · exact Or.inl (isIdentifierRest_of_start h.1)
      · exact Or.inl (h.2 d hd)

/-- Cutting a text into pieces loses only the characters it is cut at. -/
theorem exists_piece_of_mem {p : Char → Bool} {d : Char} (h : d ∈ cs) :
    p d = true ∨ ∃ part ∈ pieces p cs, d ∈ part := by
  induction cs with
  | nil => exact absurd h List.not_mem_nil
  | cons c cs ih =>
      rw [pieces]
      split
      · next hc =>
          rcases List.mem_cons.1 h with rfl | h
          · exact Or.inl hc
          · rcases ih h with hp | ⟨part, hpart, hd⟩
            · exact Or.inl hp
            · exact Or.inr ⟨part, List.mem_cons_of_mem _ hpart, hd⟩
      · cases hrest : pieces p cs with
        | nil => exact absurd hrest (pieces_ne_nil p cs)
        | cons w ws =>
            rw [hrest] at ih
            rcases List.mem_cons.1 h with rfl | h
            · exact Or.inr ⟨d :: w, List.mem_cons_self, List.mem_cons_self⟩
            · rcases ih h with hp | ⟨part, hpart, hd⟩
              · exact Or.inl hp
              · rcases List.mem_cons.1 hpart with rfl | hpart
                · exact Or.inr ⟨c :: part, List.mem_cons_self, List.mem_cons_of_mem _ hd⟩
                · exact Or.inr ⟨part, List.mem_cons_of_mem _ hpart, hd⟩

/-- Dotted names are made of characters that stand in names. -/
theorem IsDottedName.isNameChar (h : IsDottedName cs) : ∀ d ∈ cs, isNameChar d = true := by
  intro d hd
  rcases exists_piece_of_mem (p := (· == '.')) hd with hdot | ⟨part, hpart, hd⟩
  · rw [Text.isNameChar, hdot, Bool.or_true]
  · exact (h part hpart).isNameChar d hd

/-- A dotted name opens like its first identifier. -/
theorem IsDottedName.opensName (h : IsDottedName cs) : OpensName cs := by
  cases cs with
  | nil => exact (h [] List.mem_cons_self).elim
  | cons c cs =>
      rw [IsDottedName, pieces] at h
      split at h
      · exact (h [] List.mem_cons_self).elim
      · cases hrest : pieces (· == '.') cs with
        | nil => exact absurd hrest (pieces_ne_nil _ cs)
        | cons w ws =>
            rw [hrest] at h
            exact ⟨c, cs, rfl, (h (c :: w) List.mem_cons_self).1⟩

/-- Two names that are followed by marks end at one place, if the texts are the same. -/
theorem name_append_inj {as bs : List Char} {c d : Char} (hxs : ∀ a ∈ xs, isNameChar a = true)
    (hys : ∀ a ∈ ys, isNameChar a = true) (hc : isNameChar c = false) (hd : isNameChar d = false)
    (h : xs ++ c :: as = ys ++ d :: bs) : xs = ys ∧ c :: as = d :: bs := by
  have hname : ∀ {zs es : List Char} {e : Char}, (∀ a ∈ zs, isNameChar a = true) →
      isNameChar e = false → (zs ++ e :: es).takeWhile isNameChar = zs := by
    intro zs es e hzs he
    rw [List.takeWhile_append_of_pos hzs, List.takeWhile_cons_of_neg (by simp [he]),
      List.append_nil]
  have heq : xs = ys := by
    rw [← hname hxs hc, h, hname hys hd]
  subst heq
  exact ⟨rfl, List.append_cancel_left h⟩

end CallFill.Text
