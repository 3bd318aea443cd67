/-!
# Sets of code points

A set of code points is stored as its boundaries in increasing order: the first code point of each
run of members and the first one after it. A code point is a member exactly when an odd number of
boundaries lie at or below it.
-/

namespace CallFill.Text

/-- Whether `n` lies inside a run of the set with these boundaries. -/
def between : List Nat → Nat → Bool
  | [], _ => false
  | b :: bs, n => if n < b then false else !between bs n

@[simp] theorem between_nil (n : Nat) : between [] n = false := rfl

/-- One run holds exactly the code points from its first to before its end. -/
theorem between_pair (a b n : Nat) :
    between [a, b] n = decide (a ≤ n ∧ n < b) := by
  simp only [between]
  by_cases h₁ : n < a
  · simp [h₁, Nat.not_le_of_lt h₁]
  · by_cases h₂ : n < b
    · simp [h₁, h₂]
      omega
    · simp [h₁, h₂]

end CallFill.Text
