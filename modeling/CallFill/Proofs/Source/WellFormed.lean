import CallFill.Proofs.Source.Arguments

/-!
# Well-formed trees

A tree in the role of a call's arguments is parenthesized, and a keyword argument has a name. Both
can be seen from the rules (`Formed`): only argument lists are given this role, and only what begins
with a name is given this kind.
-/

namespace CallFill.Source

open Reader SyntaxTree Grammar

/-- Arguments of calls are parenthesized, and keyword arguments have a name. -/
structure SyntaxTree.WellFormed (edge : Nat → Prop) (gap behind : Nat → Nat → Prop)
    (t : SyntaxTree) : Prop where
  arguments : t.role = some .arguments → Parenthesized edge gap behind t
  keyword : t.kind = .keywordArgument → ∃ c ∈ t.children, c.role = some .name

variable {edge : Nat → Prop} {gap behind : Nat → Nat → Prop} {r : Reader} {x : Reading}

/-! ## What the form of the rules tells -/

namespace Grammar

/-- The grammar gives the role of arguments only to argument lists, and the kind of a keyword
argument only to what begins with a name. -/
def Formed : Grammar Rule → Prop
  | token _ | rule _ | empty | ahead _ | absent _ => True
  | leaf kind _ => kind ≠ .keywordArgument
  | seq a b | choice a b | extend a b _ => Formed a ∧ Formed b
  | many a => Formed a
  | node kind a =>
    Formed a ∧ (kind = .keywordArgument → ∃ b, a = seq (role .name Rule.anyName) b)
  | role part a => Formed a ∧ (part = .arguments → a = rule .arguments)
  | tag t => t.kind ≠ .keywordArgument ∧ t.leftRole ≠ some .arguments
  | byKind _ a b c => Formed a ∧ Formed b ∧ Formed c

end Grammar

/-- The trees of a reading are well-formed, and its tag makes no other kind of tree and role. -/
structure WellRead (edge : Nat → Prop) (gap : Nat → Nat → Prop) (x : Reading) : Prop where
  wellFormed : ∀ t ∈ x.trees, AllParts (WellFormed edge gap (Behind gap)) t
  tag : ∀ tag ∈ x.tag, tag.kind ≠ .keywordArgument ∧ tag.leftRole ≠ some .arguments

/-- Nothing is asked of trees of other roles and kinds. -/
theorem wellFormed_of_ne {t : SyntaxTree} (hrole : t.role ≠ some .arguments)
    (hkind : t.kind ≠ .keywordArgument) : WellFormed edge gap behind t :=
  ⟨fun h => absurd h hrole, fun h => absurd h hkind⟩

theorem WellRead.of_no_trees {after : Reader} :
    WellRead edge gap ⟨[], none, after⟩ :=
  ⟨fun _ ht => absurd ht List.not_mem_nil, fun _ ht => absurd ht (by simp)⟩

/-- What is read after one another is well-formed if both parts are; the later tag is the one that
counts. -/
theorem WellRead.append {y : Reading} (hx : WellRead edge gap x) (hy : WellRead edge gap y) :
    WellRead edge gap ⟨x.trees ++ y.trees, y.tag.or x.tag, y.after⟩ := by
  refine ⟨?_, ?_⟩
  · intro t ht
    rcases List.mem_append.1 ht with ht | ht
    · exact hx.wellFormed t ht
    · exact hy.wellFormed t ht
  · intro tag htag
    cases hyt : y.tag with
    | none =>
        rw [hyt] at htag
        exact hx.tag tag htag
    | some chosen =>
        rw [hyt] at htag
        refine hy.tag tag ?_
        rw [hyt]
        exact htag

/-- Parentheses do not depend on the role of the tree. -/
theorem SyntaxTree.Parenthesized.withRole {t : SyntaxTree} (h : Parenthesized edge gap behind t)
    (part : Role) : Parenthesized edge gap behind (t.withRole part) := by
  cases t
  exact ⟨h.long, h.opening_edge, h.closing_edge, h.ordered, h.gap_of_empty, h.trailing⟩

/-- A tree keeps its form in a role other than that of arguments. -/
theorem wellFormed_withRole {t : SyntaxTree} {part : Role} (hpart : part ≠ .arguments)
    (h : AllParts (WellFormed edge gap behind) t) :
    AllParts (WellFormed edge gap behind) (t.withRole part) := by
  refine h.withRole part fun hself => ⟨?_, ?_⟩
  · intro hrole
    rw [role_withRole] at hrole
    exact absurd (Option.some.inj hrole) hpart
  · rw [kind_withRole, children_withRole]
    exact hself.keyword

/-- An addition that takes a tree in leaves it well-formed, unless it makes arguments of it. -/
theorem wellFormed_takenIn {t : SyntaxTree} {chosen : Tag}
    (hchosen : chosen.leftRole ≠ some .arguments) (h : AllParts (WellFormed edge gap behind) t) :
    AllParts (WellFormed edge gap behind) (takenIn chosen t) := by
  rw [takenIn]
  cases hrole : chosen.leftRole with
  | none => exact h
  | some part =>
      refine wellFormed_withRole ?_ h
      rintro rfl
      exact hchosen hrole

/-- What begins with a name leaves a tree in the role of a name. -/
theorem exists_name_of_reads {b : Grammar Rule}
    (h : Reads Rule.definition (seq (role .name Rule.anyName) b) r x) :
    ∃ c ∈ x.trees, c.role = some .name := by
  cases h with
  | seq ha hb =>
  cases ha with
  | role ha =>
  cases ha with
  | leaf hnext => exact ⟨_, List.mem_cons_self, rfl⟩

/-- What a grammar of this form reads is well-formed: the induction follows the reading, and each
rule that it enters is of this form again. -/
theorem Grammar.Reads.wellRead {g : Grammar Rule} (hrules : ∀ name, (Rule.definition name).Formed)
    (h : Reads Rule.definition g r x) (hg : g.Formed) (hr : r.Ready edge) (hs : r.Spaced gap) :
    WellRead edge gap x := by
  induction h with
  | token hnext => exact WellRead.of_no_trees
  | leaf hnext =>
      refine ⟨?_, fun _ ht => absurd ht (by simp)⟩
      intro t ht
      obtain rfl := List.mem_singleton.1 ht
      refine AllParts.of_children (wellFormed_of_ne (by simp [SyntaxTree.role]) hg) ?_
      intro c hc
      exact absurd hc List.not_mem_nil
  | rule h ih => exact ih (hrules _) hr hs
  | empty r => exact WellRead.of_no_trees
  | seq ha hb iha ihb =>
      have hfirst := ha.advances hr
      exact (iha hg.1 hr hs).append (ihb hg.2 hfirst.ready (hs.suffix hfirst.suffix))
  | first ha ih => exact ih hg.1 hr hs
  | second hb ih => exact ih hg.2 hr hs
  | stop item r => exact WellRead.of_no_trees
  | more hitem hmore ihitem ihmore =>
      have hfirst := hitem.advances hr
      exact (ihitem hg hr hs).append (ihmore hg hfirst.ready (hs.suffix hfirst.suffix))
  | @node kind inner r x h ih =>
      have hx := ih hg.1 hr hs
      refine ⟨?_, fun _ ht => absurd ht (by simp)⟩
      intro t ht
      obtain rfl := List.mem_singleton.1 ht
      refine AllParts.of_children ⟨fun hrole => absurd hrole (by simp [SyntaxTree.role]), ?_⟩
        hx.wellFormed
      intro hkind
      cases htag : x.tag with
      | some chosen =>
          rw [htag] at hkind
          exact absurd hkind (hx.tag chosen htag).1
      | none =>
          rw [htag] at hkind
          -- a keyword argument begins with its name
          obtain ⟨b, rfl⟩ := hg.2 hkind
          exact exists_name_of_reads h
  | base h ih => exact ih hg.1 hr hs
  | untagged h ih => exact ⟨(ih hg.1 hr hs).wellFormed, fun _ ht => absurd ht (by simp)⟩
  | @extended base addition again r mid after t trees chosen h hadd ih ihadd =>
      have hmid := h.advances hr
      have hleft := (ih hg hr hs).wellFormed t List.mem_cons_self
      have hright := ihadd hg.2 hmid.ready (hs.suffix hmid.suffix)
      obtain ⟨hkind, hrole⟩ := hright.tag chosen rfl
      refine ⟨?_, fun _ ht => absurd ht (by simp)⟩
      intro u hu
      obtain rfl := List.mem_singleton.1 hu
      refine AllParts.of_children (wellFormed_of_ne (by simp [SyntaxTree.role]) hkind) ?_
      intro c hc
      rcases List.mem_cons.1 hc with rfl | hc
      · exact wellFormed_takenIn hrole hleft
      · exact hright.wellFormed c hc
  | tag t r =>
      refine ⟨fun _ ht => absurd ht List.not_mem_nil, ?_⟩
      intro u hu
      obtain rfl := Option.mem_some.1 hu
      exact hg
  | @role part inner r x h ih =>
      have hx := ih hg.1 hr hs
      refine ⟨?_, hx.tag⟩
      intro u hu
      obtain ⟨t, ht, rfl⟩ := List.mem_map.1 hu
      by_cases hpart : part = .arguments
      -- only the rule of argument lists is read in the role of arguments
      · subst hpart
        obtain rfl := hg.2 rfl
        obtain ⟨t', ht', hparen⟩ := parenthesized_of_reads hr hs h
        rw [ht'] at ht
        obtain rfl := List.mem_singleton.1 ht
        refine AllParts.withRole (hx.wellFormed t ?_) _ fun hself => ⟨?_, ?_⟩
        · rw [ht']
          exact List.mem_cons_self
        · exact fun _ => hparen.withRole _
        · rw [kind_withRole, children_withRole]
          exact hself.keyword
      · exact wellFormed_withRole hpart (hx.wellFormed t ht)
  | ahead inner r => exact WellRead.of_no_trees
  | absent inner r => exact WellRead.of_no_trees
  | @byKind test inner yes no r after t chosen y h hy ih ihy =>
      have hfirst := h.advances hr
      have hyes : (if test t.kind then yes else no).Formed := by
        split
        · exact hg.2.1
        · exact hg.2.2
      exact (ih hg.1 hr hs).append (ihy hyes hfirst.ready (hs.suffix hfirst.suffix))

/-! ## The rules -/

namespace Rule

@[simp] theorem formed_mark (m : String) : (mark m : G).Formed := trivial

@[simp] theorem formed_word (w : String) : (word w : G).Formed := trivial

@[simp] theorem formed_kinded (k : TokenKind) : (kinded k : G).Formed := trivial

@[simp] theorem formed_oneMark (marks : List String) : (oneMark marks).Formed := trivial

@[simp] theorem formed_wordBut (reserved : List String) : (wordBut reserved).Formed := by
  simp [wordBut, Formed]

@[simp] theorem formed_anyName : anyName.Formed := by
  simp [anyName, Formed]

/-- All rules have argument lists and keyword arguments of their form only. -/
theorem formed (name : Rule) : (definition name).Formed := by
  cases name with
  | binary level =>
      rw [definition]
      split
      · by_cases hlevel : level = 0 <;> simp [Formed, all, takesIn, hlevel]
      · trivial
  | _ =>
      simp [definition, Formed, all, oneOf, Grammar.optional, many1, commaSeparated, commaList,
        ofKind, identifier, endOfStatement, importWords, wordStatement, body, comparisonOperator,
        listTail, typed, defaultValue, callTail, targetTail, bracketed, indented, stray, becomes,
        takesIn, starred, definition.sliceRest, definition.spread, definition.mapping,
        definition.entry, definition.braceTail]

end Rule

end CallFill.Source
