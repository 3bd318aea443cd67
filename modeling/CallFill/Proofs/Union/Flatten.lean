import CallFill.Union.Basic

/-!
# Leaves of unions

Flattening a union leaves no union behind, and whatever settles a union settles it to one of its
leaves. So a value written for a leaf never has to settle another union.
-/

namespace CallFill

namespace Union

variable {h : Host} {c : Config}

/-- No leaf is a union. -/
theorem isUnion_of_mem_leaves {n : Nat} {t leaf : TypeId} (hl : leaf ∈ leaves h n t) :
    (h.shape leaf).isUnion = false := by
  induction n generalizing t with
  | zero =>
      rw [leaves] at hl
      cases ht : (h.shape t).isUnion with
      | true =>
          rw [ht, if_pos rfl] at hl
          exact nomatch hl
      | false =>
          rw [ht, if_neg Bool.false_ne_true] at hl
          rw [List.mem_singleton.1 hl]
          exact ht
  | succ n ih =>
      rw [leaves] at hl
      cases ht : (h.shape t).members? with
      | some members =>
          rw [ht] at hl
          obtain ⟨m, -, hm⟩ := List.mem_flatMap.1 hl
          exact ih hm
      | none =>
          rw [ht] at hl
          rw [List.mem_singleton.1 hl, TypeShape.isUnion, ht]
          rfl

/-- No leaf of a union is a union. -/
theorem isUnion_of_mem_flatten {members : List TypeId} {leaf : TypeId}
    (hl : leaf ∈ flatten h members) : (h.shape leaf).isUnion = false := by
  obtain ⟨m, -, hm⟩ := List.mem_flatMap.1 (mem_of_mem_dedupBy hl)
  exact isUnion_of_mem_leaves hm

/-- What is ranked is one of the leaves. -/
theorem mem_of_mem_rankFlat {flat : List TypeId} {t : TypeId} (ht : t ∈ rankFlat h c flat) :
    t ∈ flat := by
  rw [rankFlat] at ht
  cases hb : bestBucket? h flat with
  | none =>
      rw [hb] at ht
      exact nomatch ht
  | some best =>
      rw [hb] at ht
      exact (List.mem_filter.1 (List.mem_mergeSort.1 ht)).1

/-- The default is one of those ranked. -/
theorem mem_of_defaultPick {ranked : List TypeId} {t : TypeId}
    (ht : defaultPick h ranked = some t) : t ∈ ranked := by
  rw [defaultPick] at ht
  cases hf : ranked.find? fun t => !h.isNone t with
  | some u =>
      rw [hf] at ht
      exact Option.some.inj ht ▸ List.mem_of_find?_eq_some hf
  | none =>
      rw [hf] at ht
      exact List.mem_of_head? ht

/-- What an existing text is matched with is one of the candidates. -/
theorem mem_of_matchesExisting {text : String} {candidates : List TypeId} {t : TypeId}
    (ht : matchesExisting h text candidates = some t) : t ∈ candidates := by
  simp only [matchesExisting] at ht
  split at ht
  · exact nomatch ht
  · exact List.mem_of_find?_eq_some ht

/-- The types among which a resolution leaves the choice. -/
def Resolution.types : Resolution → List TypeId
  | .single t | .matched t => [t]
  | .choice ranked => ranked
  | .unresolved => []

/-- A union is settled among the leaves it is given. -/
theorem mem_of_mem_resolveFlat {flat : List TypeId} {existing : Option String} {t : TypeId}
    (ht : t ∈ (resolveFlat h c flat existing).types) : t ∈ flat := by
  match flat with
  | [] => exact ht
  | [only] => exact ht
  | a :: b :: rest =>
      -- the ranking, an existing text and the last resort all stay among the leaves
      simp only [resolveFlat] at ht
      generalize a :: b :: rest = flat at ht ⊢
      split at ht
      · split at ht
        · next u hu =>
            obtain ⟨text, -, hm⟩ := Option.bind_eq_some_iff.1 hu
            rw [List.mem_singleton.1 ht]
            exact mem_of_matchesExisting hm
        · exact nomatch ht
      · split at ht
        · next u hu =>
            obtain ⟨text, -, hm⟩ := Option.bind_eq_some_iff.1 hu
            rw [List.mem_singleton.1 ht]
            exact mem_of_mem_rankFlat (mem_of_matchesExisting hm)
        · split at ht
          · exact mem_of_mem_rankFlat ht
          · split at ht
            · next u hu =>
                rw [List.mem_singleton.1 ht]
                exact mem_of_mem_rankFlat (mem_of_defaultPick hu)
            · exact nomatch ht

end Union

end CallFill
