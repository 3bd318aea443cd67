import CallFill.Chooser
import CallFill.Proofs.Union.Ranking
import Mathlib

/-!
# Settling a union

How a union is settled, case by case (`Settles`), and what follows from it: `None` is picked only
where the best bucket holds nothing else, a choice starts with the type that would be picked without
asking, and an existing text settles a union only to a leaf that it shows (`none_is_last_resort`).
-/

namespace CallFill

/-! ## Texts that show nothing -/

/-- The empty text is no value of any type. -/
theorem Evidence.shows_nil (name : String) : Evidence.shows [] name = false := by
  show Evidence.hasFormOf [] name = false
  rw [Evidence.hasFormOf]
  repeat' split
  all_goals rfl

/-- `None` is the last of the kinds. -/
theorem MemberKind.rank_le_none (kind : MemberKind) : kind.rank ≤ MemberKind.none.rank := by
  cases kind <;> decide

namespace Union

variable {h : Host} {c : Config} {members flat ranked candidates : List TypeId} {t u : TypeId}
  {text : String} {existing : Option String}

/-- The text, without the blanks around it, shows a value of the type. -/
def Matches (h : Host) (text : String) (t : TypeId) : Prop :=
  expressionIs h (Text.trim text.toList) t = true

theorem expressionIs_nil (h : Host) (t : TypeId) : expressionIs h [] t = false := by
  rw [expressionIs]
  split
  · decide
  · exact Evidence.shows_nil _

/-- An existing text is matched with the first candidate that its expression is of. -/
theorem matchesExisting_eq_find? :
    matchesExisting h text candidates =
      candidates.find? (expressionIs h (Text.trim text.toList)) := by
  simp only [matchesExisting]
  split
  · next hempty =>
      rw [List.isEmpty_iff.1 hempty]
      refine (List.find?_eq_none.2 fun t _ => ?_).symm
      rw [expressionIs_nil]
      exact Bool.false_ne_true
  · rfl

/-- What an existing text is matched with, it matches. -/
theorem matches_of_matchesExisting (ht : matchesExisting h text candidates = some t) :
    Matches h text t := by
  rw [matchesExisting_eq_find?] at ht
  exact List.find?_some ht

/-- An existing text is matched with nothing exactly if it matches no candidate. -/
theorem matchesExisting_eq_none_iff :
    matchesExisting h text candidates = none ↔ ∀ t ∈ candidates, ¬Matches h text t := by
  rw [matchesExisting_eq_find?, List.find?_eq_none]
  rfl

/-! ## The cases -/

/-- How a union with these leaves is settled, beside this text. -/
inductive Settles (h : Host) (c : Config) (flat : List TypeId) (existing : Option String) :
    Resolution → Prop
  | nothing (hflat : flat = []) : Settles h c flat existing .unresolved
  | lone {t : TypeId} (hflat : flat = [t]) : Settles h c flat existing (.single t)
  /-- No leaf has a bucket, and the text is a value of one of them. -/
  | matchedLeaf {text : String} {t : TypeId} (hrank : rankFlat h c flat = [])
      (htext : existing = some text) (ht : matchesExisting h text flat = some t) :
      Settles h c flat existing (.matched t)
  /-- No leaf has a bucket, and the text tells nothing. -/
  | unclassified (hrank : rankFlat h c flat = []) : Settles h c flat existing .unresolved
  /-- The text is a value of a ranked leaf. -/
  | matchedRanked {text : String} {t : TypeId} (hrank : rankFlat h c flat ≠ [])
      (htext : existing = some text)
      (ht : matchesExisting h text (rankFlat h c flat) = some t) :
      Settles h c flat existing (.matched t)
  /-- At least two ranked leaves are not `None`, and the text is a value of no ranked leaf. -/
  | choice (htwo : 2 ≤ ((rankFlat h c flat).filter fun t => !h.isNone t).length)
      (hnone : ∀ text, existing = some text → ∀ t ∈ rankFlat h c flat, ¬Matches h text t) :
      Settles h c flat existing (.choice (rankFlat h c flat))
  /-- At most one ranked leaf is not `None`. -/
  | picked {t : TypeId}
      (hfew : ((rankFlat h c flat).filter fun t => !h.isNone t).length < 2)
      (ht : defaultPick h (rankFlat h c flat) = some t) : Settles h c flat existing (.single t)

theorem exists_of_bind_matchesExisting
    (ht : existing.bind (matchesExisting h · candidates) = some t) :
    ∃ text, existing = some text ∧ matchesExisting h text candidates = some t :=
  Option.bind_eq_some_iff.1 ht

/-- Without a match, an existing text matches no candidate. -/
theorem forall_of_bind_matchesExisting
    (hnone : existing.bind (matchesExisting h · candidates) = none) :
    ∀ text, existing = some text → ∀ t ∈ candidates, ¬Matches h text t := by
  rintro text rfl
  exact matchesExisting_eq_none_iff.1 hnone

/-- There is a default among any that are ranked. -/
theorem defaultPick_eq_none_iff : defaultPick h ranked = none ↔ ranked = [] := by
  rw [defaultPick]
  constructor
  · intro hnone
    split at hnone
    · cases hnone
    · exact List.head?_eq_none_iff.1 hnone
  · rintro rfl
    rfl

/-- However a union is settled, one of the ways applies: the cases are those of the resolution, in
its order. -/
theorem settles_resolveFlat (h : Host) (c : Config) (flat : List TypeId)
    (existing : Option String) : Settles h c flat existing (resolveFlat h c flat existing) := by
  match flat with
  | [] => exact .nothing rfl
  | [only] => exact .lone rfl
  | a :: b :: rest =>
      simp only [resolveFlat]
      -- from here on the leaves are a list like any other
      generalize a :: b :: rest = flat
      split
      · next hempty =>
          have hrank := List.isEmpty_iff.1 hempty
          split
          · next t ht =>
              obtain ⟨text, htext, ht⟩ := exists_of_bind_matchesExisting ht
              exact .matchedLeaf hrank htext ht
          · exact .unclassified hrank
      · next hempty =>
          have hrank : rankFlat h c flat ≠ [] := fun hnil => hempty (List.isEmpty_iff.2 hnil)
          split
          · next t ht =>
              obtain ⟨text, htext, ht⟩ := exists_of_bind_matchesExisting ht
              exact .matchedRanked hrank htext ht
          · next hnone =>
              split
              · next htwo => exact .choice htwo (forall_of_bind_matchesExisting hnone)
              · next hfew =>
                  split
                  · next t ht => exact .picked (Nat.lt_of_not_le hfew) ht
                  · next hpick => exact absurd (defaultPick_eq_none_iff.1 hpick) hrank

/-! ## The last place of `None` -/

/-- Only `None` is of the last kind. -/
theorem kindOf_eq_none_iff : kindOf h c t = .none ↔ h.isNone t = true := by
  rw [kindOf, Host.isNone, decide_eq_true_iff]
  cases h.shape t with
  | collection kind elements =>
      dsimp only
      split <;> simp
  | builtin symbol name =>
      dsimp only
      split <;> simp
  | _ => simp

/-- What is not `None` is preferred to `None`. -/
theorem not_before_of_isNone (ht : h.isNone t = true) (hu : h.isNone u = false) :
    ¬Before h c t u := by
  have hnone : kindOf h c t = .none := kindOf_eq_none_iff.2 ht
  have hreal : kindOf h c u ≠ .none := by
    intro hkind
    rw [kindOf_eq_none_iff.1 hkind] at hu
    exact Bool.noConfusion hu
  rw [Before, hnone]
  rintro (hbefore | ⟨hkind, -⟩)
  · exact absurd (MemberKind.rank_le_none (kindOf h c u)) (Nat.not_le_of_lt hbefore)
  · exact hreal hkind.symm

/-- In a list in order of preference, `None` comes first only where there is nothing else. -/
theorem isNone_head_of_pairwise (hpairwise : (t :: ranked).Pairwise (Before h c))
    (ht : h.isNone t = true) : ∀ u ∈ ranked, h.isNone u = true := by
  intro u hu
  cases hnone : h.isNone u with
  | true => rfl
  | false =>
      exact absurd ((List.pairwise_cons.1 hpairwise).1 u hu) (not_before_of_isNone ht hnone)

/-- Where a list in order of preference holds something else than `None`, it starts with that, and
the first is the pick. -/
theorem exists_head_of_pairwise (hpairwise : ranked.Pairwise (Before h c))
    (hreal : (ranked.filter fun t => !h.isNone t) ≠ []) :
    ∃ t, ranked.head? = some t ∧ h.isNone t = false ∧ defaultPick h ranked = some t := by
  cases ranked with
  | nil => exact absurd rfl hreal
  | cons t ranked =>
      cases ht : h.isNone t with
      | false =>
          refine ⟨t, rfl, ht, ?_⟩
          rw [defaultPick, List.find?_cons_of_pos (by rw [ht]; rfl)]
      | true =>
          have hall : ∀ u ∈ t :: ranked, h.isNone u = true :=
            List.forall_mem_cons.2 ⟨ht, isNone_head_of_pairwise hpairwise ht⟩
          exact absurd (List.filter_eq_nil_iff.2 fun u hu => by rw [hall u hu]; decide) hreal

/-- A pick where at most one type is not `None`: this type, or one of nothing but `None`. -/
theorem pick_cases (hfew : (ranked.filter fun t => !h.isNone t).length < 2)
    (ht : defaultPick h ranked = some t) :
    (ranked.filter fun t => !h.isNone t) = [t] ∨ ∀ u ∈ ranked, h.isNone u = true := by
  cases hreal : ranked.filter fun t => !h.isNone t with
  | nil =>
      right
      intro u hu
      have hu' := List.filter_eq_nil_iff.1 hreal u hu
      rwa [Bool.not_eq_true, Bool.not_eq_false'] at hu'
  | cons u rest =>
      left
      have hrest : rest = [] := by
        rw [hreal, List.length_cons] at hfew
        exact List.eq_nil_of_length_eq_zero (by omega)
      have hfind : ranked.find? (fun t => !h.isNone t) = some u := by
        rw [← List.head?_filter, hreal]
        rfl
      rw [defaultPick, hfind] at ht
      rw [hrest, Option.some.inj ht]

/-! ## What a resolution carries -/

/-- A union ranks its best leaves and no others. -/
theorem mem_rank_iff : t ∈ rank h c members ↔ IsBest h (flatten h members) t :=
  mem_rankFlat_iff

/-- The leaves of a union are ranked by preference, and handles never decide. -/
theorem pairwise_rank (h : Host) (c : Config) (members : List TypeId) :
    (rank h c members).Pairwise (Before h c) :=
  pairwise_rankFlat (nodup_names h members)

/-- A choice is among the ranked leaves; the first of them is not `None` and is the pick. -/
theorem choice_of_resolve (hchoice : resolve h c members existing = .choice ranked) :
    ranked = rank h c members ∧ 2 ≤ (ranked.filter fun t => !h.isNone t).length ∧
      (∀ text, existing = some text → ∀ t ∈ ranked, ¬Matches h text t) ∧
      ∃ t, ranked.head? = some t ∧ h.isNone t = false ∧ defaultPick h ranked = some t := by
  have hsettles := settles_resolveFlat h c (flatten h members) existing
  rw [resolve] at hchoice
  rw [hchoice] at hsettles
  cases hsettles with
  | choice htwo hnone =>
      refine ⟨rfl, htwo, hnone, exists_head_of_pairwise (pairwise_rank h c members) ?_⟩
      exact List.ne_nil_of_length_pos (Nat.lt_of_lt_of_le Nat.zero_lt_two htwo)

/-- One leaf out of several is the only one of the best bucket that is not `None`, or this bucket
holds nothing else than `None`. -/
theorem single_of_resolve (hlen : 2 ≤ (flatten h members).length)
    (hsingle : resolve h c members existing = .single t) :
    IsBest h (flatten h members) t ∧
      (h.isNone t = false ∧
          (∀ u, IsBest h (flatten h members) u → h.isNone u = false → u = t) ∨
        ∀ u, IsBest h (flatten h members) u → h.isNone u = true) := by
  have hsettles := settles_resolveFlat h c (flatten h members) existing
  rw [resolve] at hsingle
  rw [hsingle] at hsettles
  cases hsettles with
  | lone hflat =>
      rw [hflat, List.length_singleton] at hlen
      exact absurd hlen (Nat.not_succ_le_self 1)
  | picked hfew hpick =>
      refine ⟨mem_rank_iff.1 (mem_of_defaultPick hpick), ?_⟩
      rcases pick_cases hfew hpick with hone | hall
      · left
        have hreal : ∀ u, u ∈ rank h c members ∧ h.isNone u = false ↔ u = t := by
          intro u
          rw [← List.mem_singleton (b := t), ← hone, List.mem_filter, Bool.not_eq_true']
          rfl
        exact ⟨((hreal t).2 rfl).2, fun u hu hnone => (hreal u).1 ⟨mem_rank_iff.2 hu, hnone⟩⟩
      · right
        intro u hu
        exact hall u (mem_rank_iff.2 hu)

/-- A text settles a union to a leaf that it shows, a ranked one where there are any. -/
theorem matched_of_resolve (hmatched : resolve h c members existing = .matched t) :
    ∃ text, existing = some text ∧ Matches h text t ∧
      if rank h c members = [] then t ∈ flatten h members else t ∈ rank h c members := by
  have hsettles := settles_resolveFlat h c (flatten h members) existing
  rw [resolve] at hmatched
  rw [hmatched] at hsettles
  cases hsettles with
  | matchedLeaf hrank htext ht =>
      refine ⟨_, htext, matches_of_matchesExisting ht, ?_⟩
      rw [rank, if_pos hrank]
      exact mem_of_matchesExisting ht
  | matchedRanked hrank htext ht =>
      refine ⟨_, htext, matches_of_matchesExisting ht, ?_⟩
      rw [rank, if_neg hrank]
      exact mem_of_matchesExisting ht

/-- A question is asked exactly where there is a choice, about this choice. -/
theorem request_eq_some_iff {parameter : String} {question : ChoiceRequest} :
    request h c parameter members existing = some question ↔
      resolve h c members existing = .choice question.options ∧
        question.parameter = parameter ∧ question.signature = signature h members := by
  rw [request]
  constructor
  · intro hrequest
    split at hrequest
    · next options hchoice =>
        rw [← Option.some.inj hrequest]
        exact ⟨hchoice, rfl, rfl⟩
    · exact nomatch hrequest
  · rintro ⟨hchoice, hparameter, hsignature⟩
    rw [hchoice, ← hparameter, ← hsignature]

/-- `None` is a last resort, the first option of a choice is the one picked without asking, and
every type that a resolution carries is a leaf. -/
theorem none_is_last_resort (h : Host) (c : Config) (members : List TypeId)
    (existing : Option String) :
    (∀ ranked, resolve h c members existing = .choice ranked →
      ranked = rank h c members ∧ 2 ≤ (ranked.filter fun t => !h.isNone t).length ∧
      (∀ text, existing = some text → ∀ t ∈ ranked, ¬Matches h text t) ∧
      ∃ t, ranked.head? = some t ∧ h.isNone t = false ∧ defaultPick h ranked = some t ∧
        ∀ title label, Chooser.first.choose () title ranked label = (defaultPick h ranked, ())) ∧
    (∀ t, resolve h c members existing = .single t → 2 ≤ (flatten h members).length →
      IsBest h (flatten h members) t ∧
      (h.isNone t = false ∧
          (∀ u, IsBest h (flatten h members) u → h.isNone u = false → u = t) ∨
        ∀ u, IsBest h (flatten h members) u → h.isNone u = true)) ∧
    (∀ t, resolve h c members existing = .matched t →
      ∃ text, existing = some text ∧ Matches h text t ∧
        if rank h c members = [] then t ∈ flatten h members else t ∈ rank h c members) ∧
    (∀ parameter question, request h c parameter members existing = some question ↔
      resolve h c members existing = .choice question.options ∧
        question.parameter = parameter ∧ question.signature = signature h members) ∧
    ∀ t ∈ (resolve h c members existing).types,
      t ∈ flatten h members ∧ (h.shape t).isUnion = false := by
  refine ⟨?_, fun t ht hlen => single_of_resolve hlen ht, fun t => matched_of_resolve,
    fun parameter question => request_eq_some_iff, ?_⟩
  · intro ranked hchoice
    obtain ⟨hranked, htwo, hnone, t, hhead, ht, hpick⟩ := choice_of_resolve hchoice
    refine ⟨hranked, htwo, hnone, t, hhead, ht, hpick, fun title label => ?_⟩
    rw [hpick, ← hhead]
    rfl
  · intro t ht
    have hmem := mem_of_mem_resolveFlat ht
    exact ⟨hmem, isUnion_of_mem_flatten hmem⟩

/-- Numbers and strings are a matter of choice, an optional number is a number, and a quoted text
settles the choice. -/
theorem numbers_settle :
    resolve numbers Config.default [⟨4⟩] none = .choice [⟨0⟩, ⟨1⟩, ⟨2⟩] ∧
    Chooser.first.choose () "" [⟨0⟩, ⟨1⟩, ⟨2⟩] numbers.displayName = (some ⟨0⟩, ()) ∧
    resolve numbers Config.default [⟨3⟩] none = .single ⟨0⟩ ∧
    2 ≤ (flatten numbers [⟨3⟩]).length ∧
    IsBest numbers (flatten numbers [⟨3⟩]) ⟨0⟩ ∧
    resolve numbers Config.default [⟨4⟩] (some "'x'") = .matched ⟨1⟩ ∧
    ∃ text, some "'x'" = some text ∧ Matches numbers text ⟨1⟩ := by
  have hchoice : resolve numbers Config.default [⟨4⟩] none = .choice [⟨0⟩, ⟨1⟩, ⟨2⟩] := by cbv
  have hsingle : resolve numbers Config.default [⟨3⟩] none = .single ⟨0⟩ := by cbv
  have hmatched : resolve numbers Config.default [⟨4⟩] (some "'x'") = .matched ⟨1⟩ := by cbv
  have hlen : 2 ≤ (flatten numbers [⟨3⟩]).length := by decide
  obtain ⟨hchosen, -⟩ := none_is_last_resort numbers Config.default [⟨4⟩] none
  obtain ⟨-, -, -, t, hhead, -, hpick, hfirst⟩ := hchosen _ hchoice
  obtain ⟨-, hpicked, -⟩ := none_is_last_resort numbers Config.default [⟨3⟩] none
  obtain ⟨-, -, hshown, -⟩ := none_is_last_resort numbers Config.default [⟨4⟩] (some "'x'")
  obtain ⟨text, htext, hmatches, -⟩ := hshown _ hmatched
  refine ⟨hchoice, ?_, hsingle, hlen, (hpicked _ hsingle hlen).1, hmatched, text, htext, hmatches⟩
  rw [hfirst, hpick, ← hhead]
  rfl

end Union

end CallFill
