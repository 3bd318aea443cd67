import CallFill.Population
import CallFill.Proofs.Source.Trivia
import CallFill.Proofs.Synthesis.Term

/-!
# The text of a plan

The value of a planned argument is the rendering of a term, `None`, or the name of the argument
itself where a variable of this name is passed. So the text of a plan has an equals sign, and put
between parentheses it always leaves a token: it never takes the form of blanks, comments and
commas, not even for names that start like a comment.
-/

namespace CallFill

open Source

/-- A host finds a name only under this name. -/
def Host.FindsByName (h : Host) : Prop :=
  ∀ name scope binding, h.lookup name scope = some binding → binding.name = name

/-- A term ends with a dot or a bracket, and no vacant text does. -/
theorem Term.neverVacant_render (t : Term) : NeverVacant t.render.toList := by
  cases ht : t.isSentinel with
  | true =>
      rw [t.render_eq_sentinel_iff.2 ht]
      exact neverVacant_concat ['.', '.'] (by decide) (by decide)
  | false =>
      obtain ⟨body, c, hc, hbody⟩ := t.render_closes ht
      rw [hbody]
      rw [Text.isClosing, Bool.or_eq_true, Bool.or_eq_true, beq_iff_eq, beq_iff_eq,
        beq_iff_eq] at hc
      rcases hc with (rfl | rfl) | rfl <;> exact neverVacant_concat body (by decide) (by decide)

namespace Synthesis

variable (s : Synthesis)

/-- The term of the value for a parameter. -/
def parameterTerm (p : Parameter) : Term :=
  let t := match p.type with
    | some type => s.term type 0 p.defaultText
    | none => .sentinel
  if t.isSentinel then (p.aliasSymbol.bind s.aliasTerm?).getD t else t

/-- The text of the value for a parameter is its term, rendered. -/
theorem parameterValue_text (p : Parameter) :
    (s.parameterValue p).text = (s.parameterTerm p).render := by
  delta parameterValue parameterTerm
  extract_lets result t
  have ht : result.text = t.render := by
    dsimp only [result, t]
    cases p.type with
    | none => rw [Term.render]; rfl
    | some type => exact s.value_text type 0 p.defaultText
  rw [← isSentinel_eq result t ht]
  cases halias : p.aliasSymbol with
  | none =>
      show result.text = _
      rw [Option.bind_none, Option.getD_none, ite_self]
      exact ht
  | some symbol =>
      dsimp only
      split
      · exact s.getD_aliasWrap_text (some symbol) result t ht
      · split
        · split
          · exact ht
          · exact ht
        · exact ht

/-- A planned argument gives a term, `None`, or a variable of its own name. -/
theorem plannedArgument_value {scope : ScopeId} {p : Parameter} {a : PlannedArgument}
    (hlookup : s.host.FindsByName) (h : s.plannedArgument scope p = some a) :
    (∃ t : Term, a.value = t.render) ∨ a.value = "None" ∨ a.value = a.name := by
  have ht := s.parameterValue_text p
  rw [plannedArgument] at h
  dsimp only at h
  split at h
  · split at h
    · next binding hbinding =>
        obtain rfl := Option.some.inj h
        exact Or.inr (Or.inr (hlookup p.name scope binding hbinding))
    · split at h
      · exact absurd h (by simp)
      · obtain rfl := Option.some.inj h
        show (∃ t : Term, (s.fallbackValue p).text = t.render) ∨ (s.fallbackValue p).text = _ ∨ _
        rw [fallbackValue]
        dsimp only
        split
        · exact Or.inr (Or.inl rfl)
        · exact Or.inl ⟨_, ht⟩
  · obtain rfl := Option.some.inj h
    exact Or.inl ⟨_, ht⟩

/-- Neither is the text of a planned argument, whatever it comes from. -/
theorem neverVacant_plannedArgument {scope : ScopeId} {p : Parameter} {a : PlannedArgument}
    (hlookup : s.host.FindsByName) (h : s.plannedArgument scope p = some a) :
    NeverVacant a.text.toList := by
  have htext : a.text.toList = a.name.toList ++ '=' :: a.value.toList := by
    rw [PlannedArgument.text, String.toList_append, String.toList_append, List.append_assoc]
    rfl
  rw [htext]
  rcases s.plannedArgument_value hlookup h with ⟨t, ht⟩ | hnone | hname
  · rw [ht]
    exact (t.neverVacant_render.prepend ['=']).prepend a.name.toList
  · rw [hnone]
    exact NeverVacant.prepend (neverVacant_concat ['=', 'N', 'o', 'n'] (by decide) (by decide)) _
  · rw [hname]
    exact neverVacant_name_eq_name a.name.toList

end Synthesis

/-! ## All arguments of a plan -/

/-- Texts with separators between them end with the last of the texts. -/
theorem exists_intercalate_eq_append (sep : List Char) (xs : List (List Char)) (x : List Char) :
    ∃ front, sep.intercalate (xs ++ [x]) = front ++ x := by
  induction xs with
  | nil => exact ⟨[], List.intercalate_singleton⟩
  | cons y ys ih =>
      obtain ⟨front, hfront⟩ := ih
      obtain ⟨z, zs, hz⟩ : ∃ z zs, ys ++ [x] = z :: zs := by
        cases ys with
        | nil => exact ⟨x, [], rfl⟩
        | cons z zs => exact ⟨z, zs ++ [x], rfl⟩
      refine ⟨y ++ (sep ++ front), ?_⟩
      rw [List.cons_append, hz, List.intercalate_cons_cons, ← hz, hfront]
      simp only [List.append_assoc]

/-- The text of a plan ends with its last argument. -/
theorem exists_planText_eq_append {plan : List PlannedArgument} (hne : plan ≠ []) :
    ∃ front, ∃ a ∈ plan, (planText plan).toList = front ++ a.text.toList := by
  obtain ⟨xs, x, rfl⟩ : ∃ xs x, plan = xs ++ [x] := ⟨_, _, (List.dropLast_concat_getLast hne).symm⟩
  obtain ⟨front, hfront⟩ := exists_intercalate_eq_append ", ".toList
    (xs.map fun a => a.text.toList) x.text.toList
  refine ⟨front, x, List.mem_append_right xs List.mem_cons_self, ?_⟩
  rw [planText, String.toList_intercalate, List.map_map, List.map_append]
  exact hfront

variable {h : Host} {c : Config} {call : CallSite} {missing : List Parameter} {o : Options}
  {sel : Selections}

theorem neverVacant_planText (hlookup : h.FindsByName)
    (hne : h.planFor c call missing o sel ≠ []) :
    NeverVacant (planText (h.planFor c call missing o sel)).toList := by
  obtain ⟨front, a, ha, htext⟩ := exists_planText_eq_append hne
  obtain ⟨p, _, hp⟩ := List.mem_filterMap.1 ha
  rw [htext]
  exact (Synthesis.neverVacant_plannedArgument _ hlookup hp).prepend front

/-- The arguments of a plan are given by name. -/
theorem equals_mem_planText {plan : List PlannedArgument} (hne : plan ≠ []) :
    '=' ∈ (planText plan).toList := by
  obtain ⟨front, a, _, htext⟩ := exists_planText_eq_append hne
  rw [htext, PlannedArgument.text, String.toList_append, String.toList_append]
  simp

end CallFill
