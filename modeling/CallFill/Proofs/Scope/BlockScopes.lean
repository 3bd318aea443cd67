import CallFill.Proofs.Scope.Blocks

/-!
# The blocks of scopes

An outline gives a scope to the module and to every body of a class or function. So each scope is
that of a block, the scopes around it are those of the blocks around it, and what it binds is bound
in its block or leaks into it from a lambda or comprehension (`Outline.Fits`). What is added to an
outline, one name, scope or call at a time, keeps it so.
-/

namespace CallFill.Outline

open Source SyntaxTree

section Fits

variable (source : List Char) (root : SyntaxTree)

/-- The name is bound in the scope of the block. -/
def Collects (block : SyntaxTree) (name : String) : Prop :=
  name ∈ parameterNames source block ∨
    ∃ blocks t, Stands root blocks t ∧ (bodies blocks).head? = some block ∧ name ∈ binder source t

/-- A scope is that of a block with others around it; `chains` are the blocks of all scopes. -/
structure ScopeOf (chains : List (List SyntaxTree)) (block : SyntaxTree)
    (outer : List SyntaxTree) (s : ScopeDef) : Prop where
  kind_iff : s.kind = .classBody ↔ block.kind = .classDefinition
  parent : ∀ p, s.parent = some p → chains[p]? = some (bodies outer)
  bindings : ∀ name ∈ KeyedList.keys s.bindings, Collects source root block name

/-- The scopes of an outline are those of blocks, and its calls stand in the blocks of their
scopes. -/
structure Fits (chains : List (List SyntaxTree)) (o : Outline) : Prop where
  length_eq : chains.length = o.scopes.length
  scope : ∀ (k : Nat) (s : ScopeDef), o.scopes[k]? = some s → ∃ block outer,
    chains[k]? = some (block :: outer) ∧ ScopeOf source root chains block outer s
  call : ∀ call ∈ o.calls, ∃ blocks t here, Stands root blocks t ∧ t.kind = .call ∧
    callOf? source here t = some call ∧ chains[call.scope]? = some (bodies blocks)

end Fits

variable {source : List Char} {root block t : SyntaxTree} {chains : List (List SyntaxTree)}
  {chain outer : List SyntaxTree} {o : Outline} {here : Place} {k : Nat} {name : String}

theorem getElem?_append_of_some {α : Type} {as more : List α} {a : α} (h : as[k]? = some a) :
    (as ++ more)[k]? = some a := by
  obtain ⟨hlt, -⟩ := List.getElem?_eq_some_iff.1 h
  rw [List.getElem?_append_left hlt]
  exact h

/-- A scope stays that of its block when further ones are entered. -/
theorem ScopeOf.mono {s : ScopeDef} (h : ScopeOf source root chains block outer s)
    (more : List (List SyntaxTree)) : ScopeOf source root (chains ++ more) block outer s where
  kind_iff := h.kind_iff
  parent := fun p hp => getElem?_append_of_some (h.parent p hp)
  bindings := h.bindings

/-- The blocks of a scope start with its own. -/
theorem Fits.exists_block (h : Fits source root chains o) (hk : chains[k]? = some chain) :
    ∃ block outer, chain = block :: outer := by
  obtain ⟨hlt, -⟩ := List.getElem?_eq_some_iff.1 hk
  rw [h.length_eq] at hlt
  obtain ⟨block, outer, hchain, -⟩ := h.scope k _ (List.getElem?_eq_getElem hlt)
  exact ⟨block, outer, Option.some.inj (hk.symm.trans hchain)⟩

/-- A call is recorded in a scope that has been entered. -/
theorem Fits.scope_lt (h : Fits source root chains o) {call : CallDef} (hcall : call ∈ o.calls) :
    call.scope < o.scopes.length := by
  obtain ⟨_, _, _, _, _, _, hscope⟩ := h.call call hcall
  rw [← h.length_eq]
  exact (List.getElem?_eq_some_iff.1 hscope).1

/-- The scope around another has been entered. -/
theorem Fits.parent_lt (h : Fits source root chains o) {s : ScopeDef} (hs : o.scopes[k]? = some s)
    {p : Nat} (hp : s.parent = some p) : p < o.scopes.length := by
  obtain ⟨_, _, _, hscope⟩ := h.scope k s hs
  rw [← h.length_eq]
  exact (List.getElem?_eq_some_iff.1 (hscope.parent p hp)).1

/-- A scope is that of a class exactly if its block is one. -/
theorem Fits.kindOf_eq_iff (h : Fits source root chains o) {k : Nat}
    (hk : chains[k]? = some chain) :
    o.kindOf k = .classBody ↔ chain.head?.map kind = some .classDefinition := by
  obtain ⟨hlt, -⟩ := List.getElem?_eq_some_iff.1 hk
  rw [h.length_eq] at hlt
  obtain ⟨block, outer, hchain, hscope⟩ := h.scope k _ (List.getElem?_eq_getElem hlt)
  obtain rfl := Option.some.inj (hk.symm.trans hchain)
  rw [kindOf, List.getElem?_eq_getElem hlt, List.head?_cons, Option.map_some, Option.some_inj]
  exact hscope.kind_iff

/-- Binding names of the scope's block keeps the outline fitting. -/
theorem Fits.modify (h : Fits source root chains o) (hk : chains[k]? = some (block :: outer))
    {f : ScopeDef → ScopeDef} (hkind : ∀ s, (f s).kind = s.kind)
    (hparent : ∀ s, (f s).parent = s.parent)
    (hbindings : ∀ s, ∀ name ∈ KeyedList.keys (f s).bindings,
      name ∈ KeyedList.keys s.bindings ∨ Collects source root block name) :
    Fits source root chains { o with scopes := o.scopes.modify k f } := by
  refine ⟨by rw [List.length_modify]; exact h.length_eq, ?_, h.call⟩
  intro j s' hj
  rw [List.getElem?_modify] at hj
  obtain ⟨s, hs, rfl⟩ := Option.map_eq_some_iff.1 hj
  obtain ⟨b, out, hchain, hscope⟩ := h.scope j s hs
  refine ⟨b, out, hchain, ?_⟩
  by_cases hjk : k = j
  · subst hjk
    obtain ⟨rfl, rfl⟩ := List.cons.inj (Option.some.inj (hk.symm.trans hchain))
    rw [if_pos rfl]
    refine ⟨by rw [hkind]; exact hscope.kind_iff, ?_, ?_⟩
    · intro p hp
      rw [hparent] at hp
      exact hscope.parent p hp
    · intro name hname
      rcases hbindings s name hname with hbefore | hnew
      · exact hscope.bindings name hbefore
      · exact hnew
  · rw [if_neg hjk]
    exact hscope

theorem keys_putNew {κ β : Type} [DecidableEq κ] {entries : KeyedList κ β} {key other : κ}
    {value : β} (h : other ∈ KeyedList.keys (KeyedList.putNew entries key value)) :
    other ∈ KeyedList.keys entries ∨ other = key := by
  rw [KeyedList.putNew] at h
  split at h
  · exact Or.inl h
  · rw [KeyedList.keys, List.map_append, List.mem_append] at h
    exact h.imp_right List.mem_singleton.1

section Bind

variable (h : Fits source root chains o) (hk : chains[k]? = some (block :: outer))

include h hk

/-- A name may be bound where the block collects it. -/
theorem Fits.bind (hname : Collects source root block name) :
    Fits source root chains (o.bind k name) := by
  refine h.modify hk (fun _ => rfl) (fun _ => rfl) ?_
  intro s other hother
  rcases keys_putNew hother with hbefore | rfl
  · exact Or.inl hbefore
  · exact Or.inr hname

theorem Fits.bindParameter (hname : Collects source root block name) :
    Fits source root chains (o.bindParameter k name) := by
  refine h.modify hk (fun _ => rfl) (fun _ => rfl) ?_
  intro s other hother
  rcases KeyedList.mem_keys_put.1 hother with hbefore | rfl
  · exact Or.inl hbefore
  · exact Or.inr hname

theorem Fits.bindImport {i : Import} (hname : Collects source root block i.boundName) :
    Fits source root chains (o.bindImport k i) := by
  refine (h.bind hk hname).modify hk ?_ ?_ ?_
  · intro s
    split <;> rfl
  · intro s
    split <;> rfl
  · intro s other hother
    refine Or.inl ?_
    split at hother
    · exact hother
    · exact hother

end Bind

/-- The blocks of the next scope are the next ones. -/
theorem Fits.next (h : Fits source root chains o) (chain : List SyntaxTree) :
    (chains ++ [chain])[o.scopes.length]? = some chain := by
  rw [← h.length_eq, List.getElem?_concat_length]

/-- A new scope is that of a block inside the blocks of its parent. -/
theorem Fits.enter (h : Fits source root chains o) {kind : ScopeKind} {parent : Nat}
    (hparent : chains[parent]? = some (bodies outer))
    (hkind : kind = .classBody ↔ block.kind = .classDefinition) :
    Fits source root (chains ++ [block :: outer]) (o.enter kind parent) := by
  have hlength : (chains ++ [block :: outer]).length = (o.enter kind parent).scopes.length := by
    rw [Outline.enter, List.length_append, List.length_append, h.length_eq]
    rfl
  refine ⟨hlength, ?_, ?_⟩
  · intro k s hs
    rw [Outline.enter] at hs
    -- the scopes before are as they were, and the new one has no names yet
    by_cases hlt : k < o.scopes.length
    · rw [List.getElem?_append_left hlt] at hs
      obtain ⟨b, out, hchain, hscope⟩ := h.scope k s hs
      exact ⟨b, out, getElem?_append_of_some hchain, hscope.mono _⟩
    · obtain ⟨hle, -⟩ := List.getElem?_eq_some_iff.1 hs
      rw [List.length_append, List.length_singleton] at hle
      have hlast : k = o.scopes.length := by omega
      subst hlast
      rw [List.getElem?_concat_length] at hs
      obtain rfl := Option.some.inj hs
      refine ⟨block, outer, h.next _, hkind, ?_, ?_⟩
      · intro p hp
        rw [← Option.some.inj hp]
        exact getElem?_append_of_some hparent
      · intro name hname
        exact absurd hname List.not_mem_nil
  · intro call hcall
    obtain ⟨blocks, t, here, hstands, hkind, hfound, hscope⟩ := h.call call hcall
    exact ⟨blocks, t, here, hstands, hkind, hfound, getElem?_append_of_some hscope⟩

/-- What a call takes from the tree of its arguments: a generator is one argument and reaches to the
closing parenthesis; arguments in a list are counted by their form. -/
inductive TakesArguments (source : List Char) (given : SyntaxTree) (call : CallDef) : Prop where
  | generator (hkind : given.kind = .generatorExpression) (hpositional : call.positional = 1)
      (hkeywords : call.keywords = []) (hunpacking : call.unpacking = 0)
      (hlast : call.lastArgumentEnd = some call.closeParen)
  | list (hkind : given.kind ≠ .generatorExpression)
      (hpositional : call.positional = (given.children.filter Definition.isPositional).length)
      (hkeywords : call.keywords =
        (given.children.filter fun a => a.kind = .keywordArgument).filterMap fun a =>
          (a.child? .name).map (SyntaxTree.text source))
      (hunpacking : call.unpacking = (given.children.filter fun a =>
        a.kind = .listSplat || a.kind = .dictionarySplat).length)
      (hlast : call.lastArgumentEnd = given.children.getLast?.map SyntaxTree.stop)

/-- What a call takes from the tree it is read off and from the place of the tree. -/
structure ReadOff (source : List Char) (here : Place) (t callee given : SyntaxTree)
    (call : CallDef) : Prop where
  function : t.child? .function = some callee
  arguments : t.child? .arguments = some given
  opening : Text.slice? source given.start (given.start + 1) = some ['(']
  closing : Text.slice? source (given.stop - 1) (given.stop - 1 + 1) = some [')']
  start_eq : call.start = t.start
  stop_eq : call.stop = t.stop
  openParen_eq : call.openParen = given.start
  closeParen_eq : call.closeParen = given.stop - 1
  takes : TakesArguments source given call
  scope_eq : call.scope = here.scope
  enclosingClass_eq : call.enclosingClass = here.enclosingClass

/-- What a call is recorded as is read off its tree. -/
theorem readOff_of_callOf? {call : CallDef} (h : callOf? source here t = some call) :
    ∃ callee given, ReadOff source here t callee given call := by
  rw [callOf?] at h
  split at h
  · next function arguments hfunction harguments =>
      dsimp only at h
      split at h
      · next hmarks =>
          refine ⟨function, arguments, ?_⟩
          split at h
          · next hkind =>
              obtain rfl := Option.some.inj h
              exact ⟨hfunction, harguments, hmarks.1, hmarks.2, rfl, rfl, rfl, rfl,
                .generator hkind rfl rfl rfl rfl, rfl, rfl⟩
          · next hkind =>
              obtain rfl := Option.some.inj h
              exact ⟨hfunction, harguments, hmarks.1, hmarks.2, rfl, rfl, rfl, rfl,
                .list hkind rfl rfl rfl rfl, rfl, rfl⟩
      · cases h
  · cases h

/-- The last argument is the generator, which reaches to the closing parenthesis, or one of the
list. -/
theorem TakesArguments.last {given : SyntaxTree} {call : CallDef}
    (h : TakesArguments source given call) : ∀ n ∈ call.lastArgumentEnd,
      n = call.closeParen ∨ ∃ a ∈ given.children, n = a.stop := by
  intro n hn
  cases h with
  | generator _ _ _ _ hlast =>
      rw [hlast] at hn
      exact .inl (Option.mem_some.1 hn).symm
  | list _ _ _ _ hlast =>
      rw [hlast] at hn
      obtain ⟨a, ha, rfl⟩ := Option.map_eq_some_iff.1 (Option.mem_def.1 hn)
      exact .inr ⟨a, List.mem_of_getLast? ha, rfl⟩

/-- A call takes up the tree it is read off and belongs to the scope that the walk is in. -/
theorem extent_of_callOf? {call : CallDef} (h : callOf? source here t = some call) :
    t.start = call.start ∧ t.stop = call.stop ∧ call.scope = here.scope := by
  obtain ⟨_, _, hread⟩ := readOff_of_callOf? h
  exact ⟨hread.start_eq.symm, hread.stop_eq.symm, hread.scope_eq⟩

/-- A call may be recorded in the scope of the body it stands in. -/
theorem Fits.recordCall (h : Fits source root chains o) {blocks : List SyntaxTree}
    (hstands : Stands root blocks t) (hkind : t.kind = .call)
    (hhere : chains[here.scope]? = some (bodies blocks)) :
    Fits source root chains (recordCall source here t o) := by
  rw [Outline.recordCall]
  cases hfound : callOf? source here t with
  | none => exact h
  | some call =>
      refine ⟨h.length_eq, h.scope, ?_⟩
      intro call' hcall
      rcases List.mem_append.1 hcall with hbefore | hnew
      · exact h.call call' hbefore
      · rw [List.mem_singleton.1 hnew]
        refine ⟨blocks, t, here, hstands, hkind, hfound, ?_⟩
        rw [(extent_of_callOf? hfound).2.2]
        exact hhere

/-- The first scope is that of the module. -/
theorem fits_start (source : List Char) (hroot : root.kind = .module) :
    Fits source root [[root]] {} := by
  refine ⟨rfl, ?_, fun call hcall => absurd hcall List.not_mem_nil⟩
  intro k s hs
  cases k with
  | zero =>
      obtain rfl := Option.some.inj hs
      refine ⟨root, [], rfl, ?_, ?_, ?_⟩
      · simp [hroot]
      · intro p hp
        cases hp
      · intro name hname
        exact absurd hname List.not_mem_nil
  | succ k => cases hs

end CallFill.Outline
