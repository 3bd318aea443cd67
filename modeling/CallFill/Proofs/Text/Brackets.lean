/-!
# Nesting of brackets

How deep the brackets of a text nest: the largest number of brackets that are open at once while the
text is read from left to right. A text that closes what it opens has one such number whatever
surrounds it (`Nests`), and these numbers follow the way the text is put together: two texts side by
side nest as deep as the deeper one, and a bracketed text one level deeper than what it holds.
-/

namespace CallFill.Text

/-- Whether the character opens a bracket. -/
def isOpening (c : Char) : Bool :=
  c == '(' || c == '[' || c == '\x7b'

/-- Whether the character closes a bracket. -/
def isClosing (c : Char) : Bool :=
  c == ')' || c == ']' || c == '\x7d'

/-- Whether the text has no brackets. -/
def IsBracketFree (cs : List Char) : Prop :=
  ∀ c ∈ cs, isOpening c = false ∧ isClosing c = false

instance (cs : List Char) : Decidable (IsBracketFree cs) :=
  List.decidableBAll (fun c => isOpening c = false ∧ isClosing c = false) cs

/-- How many brackets are open after one more character. -/
def openAfter (n : Nat) (c : Char) : Nat :=
  if isOpening c then n + 1 else if isClosing c then n - 1 else n

/-- How many brackets are open at most while a text is read that starts with `n` of them open. -/
def nestingFrom (n : Nat) : List Char → Nat
  | [] => n
  | c :: cs => max n (nestingFrom (openAfter n c) cs)

/-- How deep the brackets of a text nest. -/
def nesting (cs : List Char) : Nat :=
  nestingFrom 0 cs

/-- The text closes what it opens, and `k` of its brackets are open at once at most. -/
def Nests (k : Nat) (cs : List Char) : Prop :=
  ∀ n rest, nestingFrom n (cs ++ rest) = max (n + k) (nestingFrom n rest)

/-- The brackets that are open from the start count. -/
theorem le_nestingFrom (n : Nat) (cs : List Char) : n ≤ nestingFrom n cs := by
  cases cs with
  | nil => exact Nat.le_refl n
  | cons c cs => exact Nat.le_max_left _ _

/-- The number is how deep the brackets of the text nest. -/
theorem Nests.nesting_eq {k : Nat} {cs : List Char} (h : Nests k cs) : nesting cs = k := by
  have h0 := h 0 []
  rw [List.append_nil] at h0
  show nestingFrom 0 cs = k
  rw [h0]
  show max (0 + k) 0 = k
  omega

/-- A text without brackets does not nest at all. -/
theorem nests_of_isBracketFree {cs : List Char} (h : IsBracketFree cs) : Nests 0 cs := by
  induction cs with
  | nil =>
      intro n rest
      have hle := le_nestingFrom n rest
      show nestingFrom n rest = max (n + 0) (nestingFrom n rest)
      omega
  | cons c cs ih =>
      intro n rest
      obtain ⟨hopen, hclose⟩ := h c List.mem_cons_self
      have hafter : openAfter n c = n := by
        rw [openAfter, hopen, hclose]
        rfl
      have hrest := ih (fun d hd => h d (List.mem_cons_of_mem _ hd)) n rest
      show max n (nestingFrom (openAfter n c) (cs ++ rest)) = _
      rw [hafter, hrest]
      omega

/-- Of two texts after one another, the one that nests deeper counts. -/
theorem Nests.append {a b : Nat} {xs ys : List Char} (hx : Nests a xs) (hy : Nests b ys) :
    Nests (max a b) (xs ++ ys) := by
  intro n rest
  rw [List.append_assoc, hx n (ys ++ rest), hy n rest]
  omega

/-- A bracketed text nests one level deeper than what it holds. -/
theorem Nests.bracket {k : Nat} {xs : List Char} (opening closing : Char) (h : Nests k xs)
    (ho : isOpening opening = true) (hc : isClosing closing = true)
    (hco : isOpening closing = false) : Nests (k + 1) (opening :: (xs ++ [closing])) := by
  intro n rest
  have hin : openAfter n opening = n + 1 := by
    rw [openAfter, if_pos ho]
  have hout : openAfter (n + 1) closing = n := by
    rw [openAfter, hco, if_pos hc]
    rfl
  show max n (nestingFrom (openAfter n opening) (xs ++ [closing] ++ rest)) = _
  rw [hin, List.append_assoc, h (n + 1) ([closing] ++ rest)]
  show max n (max (n + 1 + k) (max (n + 1) (nestingFrom (openAfter (n + 1) closing) rest))) = _
  rw [hout]
  have hle := le_nestingFrom n rest
  omega

/-- So does a call of something that is named without brackets. -/
theorem Nests.called {k : Nat} {name inner : List Char} (hname : IsBracketFree name)
    (h : Nests k inner) : Nests (k + 1) (name ++ '(' :: (inner ++ [')'])) := by
  have hcall := (nests_of_isBracketFree hname).append (h.bracket '(' ')' rfl rfl rfl)
  rw [Nat.zero_max] at hcall
  exact hcall

/-- Texts in a row nest as deep as the deepest of them, with something plain between them. -/
theorem Nests.intercalate {a b : Nat} {sep x y : List Char} {ys : List (List Char)}
    (hsep : IsBracketFree sep) (hx : Nests a x) (hys : Nests b (sep.intercalate (y :: ys))) :
    Nests (max a b) (sep.intercalate (x :: y :: ys)) := by
  have h := (hx.append (nests_of_isBracketFree hsep)).append hys
  rw [Nat.max_zero] at h
  rw [List.intercalate_cons_cons]
  exact h

end CallFill.Text
