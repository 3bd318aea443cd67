/-!
# Lists without repetition

A key tells the elements of a list apart; of those with one key, the first stays. Where an order
tells all elements of a list apart, sorting by it forgets in which order they were listed.
-/

namespace CallFill

/-- The elements of a list whose key has not occurred before. -/
def dedupBy {α β : Type} [DecidableEq β] (key : α → β) : List α → List α
  | [] => []
  | a :: as => a :: (dedupBy key as).filter fun b => key b ≠ key a

variable {α β : Type} [DecidableEq β] {key : α → β} {a : α} {as : List α}

theorem mem_of_mem_dedupBy (h : a ∈ dedupBy key as) : a ∈ as := by
  induction as with
  | nil => exact h
  | cons b as ih =>
      rw [dedupBy] at h
      rcases List.mem_cons.1 h with rfl | h
      · exact List.mem_cons_self
      · exact List.mem_cons_of_mem b (ih (List.mem_filter.1 h).1)

theorem nodup_dedupBy (key : α → β) (as : List α) : ((dedupBy key as).map key).Nodup := by
  induction as with
  | nil => exact List.nodup_nil
  | cons a as ih =>
      rw [dedupBy, List.map_cons, List.nodup_cons]
      constructor
      · intro h
        obtain ⟨b, hb, hkey⟩ := List.mem_map.1 h
        exact of_decide_eq_true (List.mem_filter.1 hb).2 hkey
      · exact (List.filter_sublist.map key).nodup ih

/-- Of the elements with one key, one stays. -/
theorem exists_mem_dedupBy (h : a ∈ as) : ∃ b ∈ dedupBy key as, key b = key a := by
  induction as with
  | nil => exact absurd h List.not_mem_nil
  | cons c as ih =>
      rw [dedupBy]
      rcases List.mem_cons.1 h with rfl | h
      · exact ⟨a, List.mem_cons_self, rfl⟩
      · obtain ⟨b, hb, hkey⟩ := ih h
        by_cases hsame : key b = key c
        · exact ⟨c, List.mem_cons_self, hsame.symm.trans hkey⟩
        · exact ⟨b, List.mem_cons_of_mem c (List.mem_filter.2 ⟨hb, decide_eq_true hsame⟩), hkey⟩

/-- Where no key occurs twice, everything stays. -/
theorem dedupBy_of_nodup (h : (as.map key).Nodup) : dedupBy key as = as := by
  induction as with
  | nil => rfl
  | cons a as ih =>
      obtain ⟨hfirst, hrest⟩ := List.nodup_cons.1 h
      rw [dedupBy, ih hrest]
      refine congrArg (a :: ·) (List.filter_eq_self.2 fun b hb => decide_eq_true ?_)
      intro hkey
      exact hfirst (hkey ▸ List.mem_map_of_mem hb)

/-- What depends on the key alone may be filtered out before or after. -/
theorem filter_dedupBy {p : α → Bool} (hp : ∀ a b, key a = key b → p a = p b) (as : List α) :
    (dedupBy key as).filter p = dedupBy key (as.filter p) := by
  induction as with
  | nil => rfl
  | cons a as ih =>
      rw [dedupBy]
      cases hpa : p a with
      | true =>
          rw [List.filter_cons_of_pos hpa, List.filter_cons_of_pos hpa, dedupBy, ← ih,
            List.filter_filter, List.filter_filter]
          exact congrArg (a :: ·) (List.filter_congr fun b _ => Bool.and_comm _ _)
      | false =>
          have hneg : ¬p a = true := by rw [hpa]; exact Bool.false_ne_true
          rw [List.filter_cons_of_neg hneg, List.filter_cons_of_neg hneg, List.filter_filter, ← ih]
          refine List.filter_congr fun b _ => ?_
          -- what has the key of the first element fails the predicate as well
          cases hpb : p b with
          | false => rfl
          | true =>
              refine decide_eq_true fun hkey => ?_
              rw [hp b a hkey, hpa] at hpb
              exact Bool.false_ne_true hpb

theorem sublist_dedupBy (key : α → β) (as : List α) : (dedupBy key as).Sublist as := by
  induction as with
  | nil => exact List.Sublist.slnil
  | cons a as ih => exact (List.filter_sublist.trans ih).cons_cons a

/-- Elements with a key of their own are told apart by it before and after. -/
theorem map_dedupBy {γ : Type} (f : γ → α) (key : α → β) (cs : List γ) :
    (dedupBy (fun c => key (f c)) cs).map f = dedupBy key (cs.map f) := by
  induction cs with
  | nil => rfl
  | cons c cs ih =>
      rw [dedupBy, List.map_cons, List.map_cons, dedupBy, ← ih, List.filter_map]
      rfl

/-- What stays has a key that no element before it has. -/
theorem exists_split_of_mem_dedupBy (h : a ∈ dedupBy key as) :
    ∃ before after, as = before ++ a :: after ∧ ∀ b ∈ before, key b ≠ key a := by
  induction as with
  | nil => exact absurd h List.not_mem_nil
  | cons c as ih =>
      rw [dedupBy] at h
      rcases List.mem_cons.1 h with rfl | h
      · exact ⟨[], as, rfl, fun b hb => absurd hb List.not_mem_nil⟩
      · obtain ⟨hmem, hkey⟩ := List.mem_filter.1 h
        obtain ⟨before, after, rfl, hnew⟩ := ih hmem
        refine ⟨c :: before, after, rfl, List.forall_mem_cons.2 ⟨?_, hnew⟩⟩
        exact fun hsame => of_decide_eq_true hkey hsame.symm

/-- The first element with its key stays. -/
theorem mem_dedupBy_append_cons {before after : List α}
    (h : ∀ b ∈ before, key b ≠ key a) : a ∈ dedupBy key (before ++ a :: after) := by
  induction before with
  | nil => exact List.mem_cons_self
  | cons b before ih =>
      rw [List.cons_append, dedupBy]
      refine List.mem_cons_of_mem b (List.mem_filter.2 ⟨?_, decide_eq_true ?_⟩)
      · exact ih fun d hd => h d (List.mem_cons_of_mem b hd)
      · exact (h b List.mem_cons_self).symm

/-- Sorting by an order that tells the elements of a list apart forgets the order before. -/
theorem mergeSort_eq_of_perm {le : α → α → Bool} {xs ys : List α}
    (htrans : ∀ a b c, le a b = true → le b c = true → le a c = true)
    (htotal : ∀ a b, (le a b || le b a) = true)
    (hantisymm : ∀ a ∈ xs, ∀ b ∈ xs, le a b = true → le b a = true → a = b)
    (hperm : xs.Perm ys) : xs.mergeSort le = ys.mergeSort le := by
  have hsorted := List.pairwise_mergeSort htrans htotal
  have hsame : (xs.mergeSort le).Perm (ys.mergeSort le) :=
    ((List.mergeSort_perm xs le).trans hperm).trans (List.mergeSort_perm ys le).symm
  refine List.Perm.eq_of_pairwise (fun a b ha hb => hantisymm a ?_ b ?_) (hsorted xs) (hsorted ys)
    hsame
  · exact (List.mergeSort_perm xs le).mem_iff.1 ha
  · exact (List.mergeSort_perm xs le).mem_iff.1 (hsame.mem_iff.2 hb)

end CallFill
