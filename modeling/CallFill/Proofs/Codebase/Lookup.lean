import CallFill.Proofs.Codebase.Calls
import CallFill.Proofs.Scope.Visibility

/-!
# Names looked up from calls

A name is looked up from the scope of a call outward, through the scopes of the file that the call
stands in. So what is found is what the outline of this file finds (`Codebase.finds_of_lookupFrom`).
It is visible at the call, or it leaked into a block around the call out of a lambda or
comprehension, or the call stands in a lambda or comprehension in the body of the class that binds
it (`Project.visible_of_lookup?`). Where the file has neither lambdas nor comprehensions, whatever
is found is visible (`Project.sees_of_lookup?`).

The target of a comprehension leaks: it is found from the block around the comprehension, where
nothing binds it (`Project.not_lookupVisible`).
-/

namespace CallFill

open Source SyntaxTree Codebase

namespace Codebase

variable {b : Codebase} {file : FileId} {base : Nat} {o : Outline} {name : String}

/-- What is looked up from a scope of a file is found in the outline of the file. -/
theorem finds_of_lookupFrom (hscopes : b.ScopesFrom file base o)
    (hparent : ∀ (k : Nat) (s : ScopeDef), o.scopes[k]? = some s →
      ∀ p, s.parent = some p → p < o.scopes.length) {n k : Nat} {first : Bool}
    (hk : k < o.scopes.length) (h : (b.lookupFrom name n first ⟨base + k⟩).isSome) :
    Outline.Finds o name first k := by
  induction n generalizing k first with
  | zero => exact absurd h (by simp [lookupFrom])
  | succ n ih =>
      have hs : o.scopes[k]? = some o.scopes[k] := List.getElem?_eq_getElem hk
      rw [lookupFrom_succ (hscopes k _ hs), Option.isSome_or, Bool.or_eq_true] at h
      -- the lookup finds the name in the scope at hand, or goes on to its parent
      rcases h with hhere | houter
      · split at hhere
        · next hseen =>
            obtain ⟨kind, hkind⟩ := Option.isSome_iff_exists.1 (Option.isSome_map.symm.trans hhere)
            refine .here hs ?_ (List.mem_map_of_mem (KeyedList.mem_of_get? hkind))
            rwa [Bool.or_eq_true, bne_iff_ne] at hseen
        · cases hhere
      · cases hp : o.scopes[k].parent with
        | none =>
            rw [scopeRecord, hp] at houter
            cases houter
        | some p =>
            rw [scopeRecord, hp] at houter
            exact .outward hs hp (ih (hparent k _ hs p hp) houter)

end Codebase

/-- A call stands in these blocks of a text. -/
def CallRecord.StandsIn (text : List Char) (c : CallRecord) (blocks : List SyntaxTree) : Prop :=
  ∃ t, Stands (parse text) blocks t ∧ t.kind = .call ∧ t.start = c.start ∧ t.stop = c.stop

/-- A name is visible at a call in a text. -/
def CallRecord.Sees (text : List Char) (c : CallRecord) (name : String) : Prop :=
  ∃ blocks, c.StandsIn text blocks ∧ Outline.Visible text (parse text) name blocks

namespace Project

variable {config : Config} {sources : List (String × String)} {c : CallRecord}

/-- **What is looked up from a call.** A call stands in blocks of the text of its file. What is
found from its scope is visible there, or it leaked into one of the blocks out of a lambda or
comprehension, or the call stands in a lambda or comprehension in the body of a class that binds
it. -/
theorem visible_of_lookup? (h : c ∈ (ofSources config sources).calls) :
    ∃ path text, (path, text) ∈ sources ∧
      (ofSources config sources).file? c.site.file = some (SourceModule.ofText path text) ∧
      ∃ blocks, c.StandsIn text.toList blocks ∧ ∀ name,
        ((ofSources config sources).lookup? name c.site.scope).isSome →
          Outline.Visible text.toList (parse text.toList) name blocks ∨
            (∃ b ∈ blocks, Outline.Leaks text.toList (parse text.toList) b name) ∨
            Outline.Hidden text.toList (parse text.toList) name blocks := by
  obtain ⟨m, hm, d, hd, base, hc, hscopes⟩ := (numbered_ofSources config sources).recorded c h
  obtain ⟨path, text, hsource, rfl⟩ := exists_source_of_file? hm
  have hmodule : (parse text.toList).kind = .module := kind_parse text.toList
  obtain ⟨blocks, t, here, hstands, hkind, hcall, hvisible⟩ :=
    Outline.visible_of_finds hmodule hd
  obtain ⟨chains, hfits⟩ := Outline.fits_ofTree text.toList hmodule
  obtain ⟨hstart, hstop, -⟩ := Outline.extent_of_callOf? hcall
  refine ⟨path, text, hsource, hm, blocks, ⟨t, hstands, hkind, ?_⟩, ?_⟩
  · rw [hc]
    exact ⟨hstart, hstop⟩
  · intro name hfound
    have hscope : c.site.scope = ⟨base + d.scope⟩ := by rw [hc]; rfl
    rw [hscope, lookup?] at hfound
    refine hvisible name (finds_of_lookupFrom hscopes ?_ (hfits.scope_lt hd) hfound)
    intro k s hs p hp
    exact hfits.parent_lt hs hp

/-- Where the file of a call has neither lambdas nor comprehensions, whatever is looked up from the
call is visible at it. -/
theorem sees_of_lookup? (h : c ∈ (ofSources config sources).calls) {path text name : String}
    (hm : (ofSources config sources).file? c.site.file = some (SourceModule.ofText path text))
    (hplain : ∀ blocks b, Stands (parse text.toList) blocks b → b.isInline = false)
    (hfound : ((ofSources config sources).lookup? name c.site.scope).isSome) :
    c.Sees text.toList name := by
  obtain ⟨path', text', -, hm', blocks, hstands, hvisible⟩ := visible_of_lookup? h
  have hmodule : SourceModule.ofText path' text' = SourceModule.ofText path text :=
    Option.some.inj (hm'.symm.trans hm)
  obtain rfl : text' = text := congrArg SourceModule.text hmodule
  refine ⟨blocks, hstands, ?_⟩
  obtain ⟨t, ht, -⟩ := hstands
  exact Outline.visible_of_plain hplain ht (hvisible name hfound)

/-- Whatever is looked up from a call of a project is visible at the call. -/
def LookupVisible (config : Config) (sources : List (String × String)) : Prop :=
  ∀ c ∈ (ofSources config sources).calls, ∀ name : String,
    ((ofSources config sources).lookup? name c.site.scope).isSome →
    ∃ path text, (path, text) ∈ sources ∧
      (ofSources config sources).file? c.site.file = some (SourceModule.ofText path text) ∧
      c.Sees text.toList name

/-- A comprehension, and a call after it. -/
def leaking : String :=
  "xs = [1]\n[x for x in xs]\n\n\ndef f(x):\n    pass\n\n\nf()\n"

/-- The call finds the target of the comprehension, which nothing binds around the call. -/
theorem not_lookupVisible :
    (parse leaking.toList).hasError = false ∧
    (ofSources .default [("main.py", leaking)]).calls.map (fun c => c.site.scope) = [⟨0⟩] ∧
    (ofSources .default [("main.py", leaking)]).lookup? "x" ⟨0⟩ = some (⟨0⟩, .global) ∧
    ¬ LookupVisible .default [("main.py", leaking)] := by
  have hcalls : (ofSources .default [("main.py", leaking)]).calls.map
      (fun c => c.site.scope) = [⟨0⟩] := by decide +kernel
  have hfound : (ofSources .default [("main.py", leaking)]).lookup? "x" ⟨0⟩ =
      some (⟨0⟩, .global) := by decide +kernel
  -- the call stands in the module alone, and no part of the text binds the name there
  have hparts : ∀ p ∈ standing [parse leaking.toList] (parse leaking.toList),
      (p.2.role = some .parameters → p.2.kind = .parameters) ∧
      (p.2.kind = .call → p.1.map kind = [.module]) ∧
      ("x" ∈ Outline.binder leaking.toList p.2 →
        (Outline.bindingBlocks p.1 p.2).head?.map kind ≠ some .module) := by decide +kernel
  refine ⟨by decide +kernel, hcalls, hfound, ?_⟩
  intro hright
  have hscope : (⟨0⟩ : ScopeId) ∈
      (ofSources .default [("main.py", leaking)]).calls.map (fun c => c.site.scope) := by
    rw [hcalls]
    exact List.mem_cons_self
  obtain ⟨c, hc, hzero⟩ := List.mem_map.1 hscope
  obtain ⟨path, text, hsource, -, blocks, ⟨t, ht, hkind, -⟩, hvisible⟩ :=
    hright c hc "x" (by rw [hzero, hfound]; rfl)
  obtain ⟨rfl, rfl⟩ := Prod.mk.inj (List.mem_singleton.1 hsource)
  have hlists := fun p hp => (hparts p hp).1
  have hblocks : blocks.map kind = [.module] := (hparts _ (ht.mem_standing hlists)).2.1 hkind
  obtain ⟨b, rfl, hb⟩ := List.map_eq_singleton_iff.1 hblocks
  rcases hvisible with hbinds | ⟨_, hnone, _⟩
  · refine Outline.not_binds hlists ?_ ?_ hbinds
    · simp [Outline.parameterNames, hb]
    · intro p hp
      rw [hb]
      exact (hparts p hp).2.2
  · exact absurd hnone List.not_mem_nil

end Project

end CallFill
