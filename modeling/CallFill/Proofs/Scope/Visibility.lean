import CallFill.Proofs.Scope.Walk

/-!
# What a scope finds is visible

Each scope is that of a block, the scopes around it are those of the blocks around it, and what it
binds is bound in its block or leaks into it from a lambda or comprehension (`Outline.Fits`). So a
name that is found from the scope of a call is visible at the call, or it leaked into a block around
the call, or it is bound in the body of a class and the call stands there in a lambda or
comprehension, which does not see it (`Outline.visible_of_finds`). In a module without lambdas and
comprehensions whatever is found is visible (`Outline.visible_of_plain`).
-/

namespace CallFill.Outline

open Source SyntaxTree

variable {source : List Char} {root block t : SyntaxTree} {chains : List (List SyntaxTree)}
  {outer : List SyntaxTree} {o : Outline} {k : Nat} {name : String}

/-! ## What is found from a scope -/

/-- The name is found from a scope: it or a scope around it binds the name. Scopes of classes are
passed over unless the search starts there. -/
inductive Finds (o : Outline) (name : String) : Bool → Nat → Prop where
  | here {first : Bool} {k : Nat} {s : ScopeDef} :
      o.scopes[k]? = some s → first = true ∨ s.kind ≠ .classBody →
      name ∈ KeyedList.keys s.bindings → Finds o name first k
  | outward {first : Bool} {k p : Nat} {s : ScopeDef} :
      o.scopes[k]? = some s → s.parent = some p → Finds o name false p → Finds o name first k

/-- What is found from a scope is collected by its block or by one around it. -/
theorem Fits.collects_of_finds (h : Fits source root chains o) {first : Bool}
    (hfinds : Finds o name first k) {block : SyntaxTree} {outer : List SyntaxTree}
    (hk : chains[k]? = some (block :: outer)) :
    ((first = true ∨ block.kind ≠ .classDefinition) ∧ Collects source root block name) ∨
      ∃ b ∈ outer, b.kind ≠ .classDefinition ∧ Collects source root b name := by
  induction hfinds generalizing block outer with
  | @here first k s hs hseen hname =>
      obtain ⟨b, out, hchain, hscope⟩ := h.scope k s hs
      obtain ⟨rfl, rfl⟩ := List.cons.inj (Option.some.inj (hk.symm.trans hchain))
      refine Or.inl ⟨?_, hscope.bindings name hname⟩
      exact hseen.imp_right (mt hscope.kind_iff.2)
  | @outward first k p s hs hparent _ ih =>
      obtain ⟨b, out, hchain, hscope⟩ := h.scope k s hs
      obtain ⟨rfl, rfl⟩ := List.cons.inj (Option.some.inj (hk.symm.trans hchain))
      have hp := hscope.parent p hparent
      have hsub : ∀ c ∈ bodies outer, c ∈ outer := fun c hc => List.dropWhile_subset _ hc
      obtain ⟨b', out', hbodies⟩ := h.exists_block hp
      rw [hbodies] at hp hsub
      rcases ih hp with ⟨hseen, hcollects⟩ | ⟨c, hc, hseen, hcollects⟩
      · exact Or.inr ⟨b', hsub b' List.mem_cons_self, hseen.resolve_left Bool.false_ne_true,
          hcollects⟩
      · exact Or.inr ⟨c, hsub c (List.mem_cons_of_mem b' hc), hseen, hcollects⟩

/-! ## What is found is visible, or else -/

section Visible

variable (source root)

/-- The name leaks into a block: a tree inside of it binds the name in a lambda or comprehension,
and the walk binds it in the block. -/
def Leaks (block : SyntaxTree) (name : String) : Prop :=
  ∃ blocks t, Stands root blocks t ∧ (bodies blocks).head? = some block ∧
    (bindingBlocks blocks t).head? ≠ some block ∧ name ∈ binder source t

/-- The name is bound in the body of a class, and the place with these blocks around it lies there
in a lambda or comprehension. -/
def Hidden (name : String) (blocks : List SyntaxTree) : Prop :=
  ∃ inline block outer, blocks = inline ++ block :: outer ∧ inline ≠ [] ∧
    (∀ b ∈ inline, b.isInline = true) ∧ block.kind = .classDefinition ∧
    Binds source root block name

end Visible

theorem Collects.binds_or_leaks (h : Collects source root block name) :
    Binds source root block name ∨ Leaks source root block name := by
  rcases h with hparameter | ⟨blocks, t, hstands, hbodies, hname⟩
  · exact Or.inl (Or.inl hparameter)
  · by_cases hbinding : (bindingBlocks blocks t).head? = some block
    · exact Or.inl (Or.inr ⟨blocks, t, hstands, hbinding, hname⟩)
    · exact Or.inr ⟨blocks, t, hstands, hbodies, hbinding, hname⟩

/-- Around a place come blocks inside expressions, and then the block that has a scope. -/
theorem inline_append {blocks : List SyntaxTree} (hblocks : bodies blocks = block :: outer) :
    blocks = blocks.takeWhile isInline ++ block :: outer := by
  rw [← hblocks]
  exact List.takeWhile_append_dropWhile.symm

/-- What the block with the scope binds is seen from a place inside it, unless the block is the body
of a class and the place lies there in a lambda or comprehension. -/
theorem visible_or_hidden {blocks : List SyntaxTree} (hblocks : bodies blocks = block :: outer)
    (hbinds : Binds source root block name) :
    Visible source root name blocks ∨ Hidden source root name blocks := by
  have hsplit := inline_append hblocks
  cases hinline : blocks.takeWhile isInline with
  | nil =>
      rw [hinline, List.nil_append] at hsplit
      rw [hsplit]
      exact Or.inl (Or.inl hbinds)
  | cons first rest =>
      by_cases hclass : block.kind = .classDefinition
      · refine Or.inr ⟨first :: rest, block, outer, ?_, List.cons_ne_nil _ _, ?_, hclass, hbinds⟩
        · rw [← hinline]
          exact hsplit
        · intro b hb
          rw [← hinline] at hb
          exact List.all_eq_true.1 List.all_takeWhile b hb
      · rw [hsplit, hinline, List.cons_append]
        refine Or.inl (Or.inr ⟨block, ?_, hclass, hbinds⟩)
        exact List.mem_append_right _ List.mem_cons_self

/-- What a block further out binds is seen, unless that is the body of a class. -/
theorem visible_of_mem {blocks : List SyntaxTree} {b : SyntaxTree}
    (hblocks : bodies blocks = block :: outer) (hb : b ∈ outer) (hclass : b.kind ≠ .classDefinition)
    (hbinds : Binds source root b name) : Visible source root name blocks := by
  rw [inline_append hblocks]
  cases blocks.takeWhile isInline with
  | nil => exact Or.inr ⟨b, hb, hclass, hbinds⟩
  | cons first rest =>
      refine Or.inr ⟨b, ?_, hclass, hbinds⟩
      exact List.mem_append_right _ (List.mem_cons_of_mem block hb)

/-- **What is found from the scope of a call.** Every call of a module is read off a part of its
tree. What is found from its scope is visible there, or it leaked into a block around the call from
a lambda or comprehension, or the call stands in a lambda or comprehension in the body of a class
that binds it. -/
theorem visible_of_finds (hroot : root.kind = .module) {call : CallDef}
    (hcall : call ∈ (ofTree source root).calls) :
    ∃ blocks t here, Stands root blocks t ∧ t.kind = .call ∧ callOf? source here t = some call ∧
      ∀ name, Finds (ofTree source root) name true call.scope →
        Visible source root name blocks ∨ (∃ b ∈ blocks, Leaks source root b name) ∨
          Hidden source root name blocks := by
  obtain ⟨chains, hfits⟩ := fits_ofTree source hroot
  obtain ⟨blocks, t, here, hstands, hkind, hfound, hscope⟩ := hfits.call call hcall
  refine ⟨blocks, t, here, hstands, hkind, hfound, ?_⟩
  intro name hfinds
  obtain ⟨block, outer, hblocks⟩ := hfits.exists_block hscope
  have hsub : ∀ b ∈ block :: outer, b ∈ blocks := by
    intro b hb
    rw [← hblocks] at hb
    exact List.dropWhile_subset _ hb
  rw [hblocks] at hscope
  rcases hfits.collects_of_finds hfinds hscope with ⟨-, hcollects⟩ | ⟨b, hb, hclass, hcollects⟩
  · rcases hcollects.binds_or_leaks with hbinds | hleaks
    · exact (visible_or_hidden hblocks hbinds).imp_right Or.inr
    · exact Or.inr (Or.inl ⟨block, hsub block List.mem_cons_self, hleaks⟩)
  · rcases hcollects.binds_or_leaks with hbinds | hleaks
    · exact Or.inl (visible_of_mem hblocks hb hclass hbinds)
    · exact Or.inr (Or.inl ⟨b, hsub b (List.mem_cons_of_mem block hb), hleaks⟩)

/-! ## Modules without blocks inside expressions -/

/-- What leaks into a block was bound in a lambda or comprehension. -/
theorem Leaks.exists_inline (h : Leaks source root block name) :
    ∃ blocks b, Stands root blocks b ∧ b.isInline = true := by
  obtain ⟨blocks, t, hstands, hbodies, hbinding, -⟩ := h
  cases blocks with
  | nil => exact nomatch hbodies
  | cons first rest =>
      by_cases hinline : first.isInline = true
      · obtain ⟨outer, hfirst⟩ := hstands.exists_of_mem List.mem_cons_self
        exact ⟨outer, first, hfirst, hinline⟩
      · -- with no such block innermost, the name is bound where the walk binds it
        refine absurd ?_ hbinding
        rw [bodies, List.dropWhile_cons_of_neg hinline] at hbodies
        have hcomprehension : ¬ first.isComprehension = true := by
          intro hcomprehension
          exact hinline (by simp [isInline, hcomprehension])
        rw [bindingBlocks, List.dropWhile_cons_of_neg hcomprehension]
        split
        · exact hbodies
        · exact hbodies

/-- Without lambdas and comprehensions nothing leaks and nothing is hidden. -/
theorem visible_of_plain (hplain : ∀ blocks b, Stands root blocks b → b.isInline = false)
    {blocks : List SyntaxTree} (hstands : Stands root blocks t)
    (h : Visible source root name blocks ∨ (∃ b ∈ blocks, Leaks source root b name) ∨
      Hidden source root name blocks) : Visible source root name blocks := by
  rcases h with hvisible | ⟨b, -, hleaks⟩ | ⟨inline, b, outer, rfl, hnonempty, hinline, -⟩
  · exact hvisible
  · obtain ⟨outer, b, hb, hinline⟩ := hleaks.exists_inline
    rw [hplain outer b hb] at hinline
    exact nomatch hinline
  · obtain ⟨first, hfirst⟩ := List.exists_mem_of_ne_nil inline hnonempty
    obtain ⟨outer, hstands⟩ := hstands.exists_of_mem (List.mem_append_left _ hfirst)
    have hno := hplain outer first hstands
    rw [hinline first hfirst] at hno
    exact nomatch hno

end CallFill.Outline
