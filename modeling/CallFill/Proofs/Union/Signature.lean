import CallFill.Proofs.Union.Flatten

/-!
# Signatures of unions

The signature of a union is made of the names of its leaves, sorted and joined. It is computed from
the members where a question is asked, and from the flattened leaves where the answer is looked up;
flattening twice changes nothing, so the two are the same. Unions with the same names have the same
signature whatever the order of their members. The converse needs names without the separator: the
two names `a|b` and `c` are joined like the names `a` and `b|c`.
-/

namespace CallFill

namespace Union

variable {h : Host} {c : Config} {members others : List TypeId}

/-- The rendered names of the leaves of a union. -/
def names (h : Host) (members : List TypeId) : List String :=
  (flatten h members).map h.displayName

/-- No two leaves of a union have one name. -/
theorem nodup_names (h : Host) (members : List TypeId) : (names h members).Nodup :=
  nodup_dedupBy h.displayName _

/-! ## Flattening what is flat -/

/-- A type that is no union is its only leaf, however far down one looks. -/
theorem leaves_of_not_isUnion {t : TypeId} (ht : (h.shape t).isUnion = false) (n : Nat) :
    leaves h n t = [t] := by
  cases n with
  | zero =>
      rw [leaves, ht]
      rfl
  | succ n =>
      have hnone : (h.shape t).members? = none :=
        Option.isNone_iff_eq_none.1 (Option.isSome_eq_false_iff.1 ht)
      rw [leaves, hnone]

/-- Types that are no unions and have different names are not changed by flattening. -/
theorem flatten_of_flat {flat : List TypeId} (hflat : ∀ t ∈ flat, (h.shape t).isUnion = false)
    (hnames : (flat.map h.displayName).Nodup) : flatten h flat = flat := by
  have hleaves : flat.flatMap (leaves h maxNesting) = flat := by
    induction flat with
    | nil => rfl
    | cons t flat ih =>
        rw [List.flatMap_cons, leaves_of_not_isUnion (hflat t List.mem_cons_self),
          ih (fun u hu => hflat u (List.mem_cons_of_mem t hu)) (List.nodup_cons.1 hnames).2]
        rfl
  rw [flatten, hleaves, dedupBy_of_nodup hnames]

/-- Flattening twice is flattening once. -/
theorem flatten_flatten (h : Host) (members : List TypeId) :
    flatten h (flatten h members) = flatten h members :=
  flatten_of_flat (fun _ ht => isUnion_of_mem_flatten ht) (nodup_names h members)

/-- The signature of the leaves is the signature of the union. -/
theorem signature_flatten (h : Host) (members : List TypeId) :
    signature h (flatten h members) = signature h members := by
  rw [signature, signature, flatten_flatten]

/-! ## Names and signatures -/

/-- Names in order are the same, whatever order they were in. -/
theorem mergeSort_names_eq_of_perm {xs ys : List String} (hperm : xs.Perm ys) :
    xs.mergeSort = ys.mergeSort := by
  refine mergeSort_eq_of_perm ?_ ?_ ?_ hperm
  · intro a b c hab hbc
    exact decide_eq_true (String.le_trans (of_decide_eq_true hab) (of_decide_eq_true hbc))
  · intro a b
    rw [Bool.or_eq_true, decide_eq_true_iff, decide_eq_true_iff]
    exact String.le_total a b
  · intro a _ b _ hab hba
    exact String.le_antisymm (of_decide_eq_true hab) (of_decide_eq_true hba)

/-- Unions with the same names have the same signature. -/
theorem signature_congr (hsame : ∀ name, name ∈ names h members ↔ name ∈ names h others) :
    signature h members = signature h others := by
  have hperm : (names h members).Perm (names h others) :=
    (List.perm_ext_iff_of_nodup (nodup_names h members) (nodup_names h others)).2 hsame
  rw [signature, signature]
  exact congrArg _ (mergeSort_names_eq_of_perm hperm)

/-- Names without the separator are read off the signature. -/
theorem splitOn_signature (hne : flatten h members ≠ [])
    (hplain : ∀ name ∈ names h members, '|' ∉ name.toList) :
    (signature h members).toList.splitOn '|' = (names h members).mergeSort.map String.toList := by
  rw [signature, String.toList_intercalate]
  refine List.splitOn_intercalate '|' ?_ ?_
  · intro piece hpiece
    obtain ⟨name, hname, rfl⟩ := List.mem_map.1 hpiece
    exact hplain name (List.mem_mergeSort.1 hname)
  · intro hnil
    apply hne
    have hlength := congrArg List.length hnil
    rw [List.length_map, List.length_mergeSort, List.length_map, List.length_nil] at hlength
    exact List.eq_nil_of_length_eq_zero hlength

/-- For names without the separator, unions with the same signature have the same names. -/
theorem mem_names_iff_of_signature_eq (hne : flatten h members ≠ []) (hne' : flatten h others ≠ [])
    (hplain : ∀ name ∈ names h members, '|' ∉ name.toList)
    (hplain' : ∀ name ∈ names h others, '|' ∉ name.toList)
    (hsig : signature h members = signature h others) (name : String) :
    name ∈ names h members ↔ name ∈ names h others := by
  have hsorted : (names h members).mergeSort = (names h others).mergeSort := by
    have hpieces := splitOn_signature hne hplain
    rw [hsig, splitOn_signature hne' hplain'] at hpieces
    exact (List.map_inj_right fun _ _ => String.toList_injective).1 hpieces.symm
  calc name ∈ names h members
      ↔ name ∈ (names h members).mergeSort := List.mem_mergeSort.symm
    _ ↔ name ∈ (names h others).mergeSort := by rw [hsorted]
    _ ↔ name ∈ names h others := List.mem_mergeSort

/-- A union is a matter of choice only where it has two leaves or more. -/
theorem two_le_length_of_choice {flat ranked : List TypeId} {existing : Option String}
    (hchoice : resolveFlat h c flat existing = .choice ranked) : 2 ≤ flat.length := by
  match flat with
  | [] => exact nomatch hchoice
  | [only] => exact nomatch hchoice
  | a :: b :: rest =>
      rw [List.length_cons, List.length_cons]
      omega

/-- Where there is a choice there are leaves. -/
theorem ne_nil_of_choice {flat ranked : List TypeId} {existing : Option String}
    (hchoice : resolveFlat h c flat existing = .choice ranked) : flat ≠ [] :=
  List.ne_nil_of_length_pos (Nat.lt_of_lt_of_le Nat.zero_lt_two (two_le_length_of_choice hchoice))

end Union

end CallFill
