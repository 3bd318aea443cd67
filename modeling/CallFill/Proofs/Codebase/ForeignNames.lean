import CallFill.Proofs.Codebase.PlainNames
import CallFill.Proofs.Codebase.VisibleAlias

/-!
# Texts that are read as names

Any text is read as a dotted name, segment by segment. One with a character that no name of the
codebase has, a parenthesis say, leads past what the codebase knows: from the segment with the
character on, it means something outside, of which anything is a member, or it means nothing
(`Codebase.isOutside_of_resolveFrom`). In particular it means no class
(`Codebase.resolve_ne_class`).
-/

namespace CallFill

open Text Dotted

/-- Neither a class nor a module, whose members could be in the codebase. -/
def Entity.IsBare : Entity → Prop
  | .classDef _ | .module _ => False
  | .function _ | .assignment _ | .external _ | .builtin _ => True

/-- Something outside of the codebase. -/
def Entity.IsOutside (e : Entity) : Prop :=
  ∃ name, e = .external name

theorem Entity.IsOutside.isBare {e : Entity} (h : e.IsOutside) : e.IsBare := by
  obtain ⟨name, rfl⟩ := h
  trivial

namespace Codebase

variable {b : Codebase} {c : Char} {e e' : Entity} {file : FileId} {name text : String}
  {names : List String}

/-! ## Members of what is no class and no module -/

/-- A member of what is neither a class nor a module lies outside. -/
theorem isOutside_of_member (he : e.IsBare) (h : b.member e name = some e') : e'.IsOutside := by
  cases e with
  | external outer => exact ⟨_, (Option.some.inj h).symm⟩
  | classDef id => exact he.elim
  | module outer => exact he.elim
  | function id => cases h
  | assignment id => cases h
  | builtin outer => cases h

/-- Below what lies outside everything does. -/
theorem isOutside_of_members (he : e.IsOutside) (h : b.members e names = some e') :
    e'.IsOutside := by
  induction names generalizing e with
  | nil => exact Option.some.inj h ▸ he
  | cons name names ih =>
      rw [members, List.foldlM_cons] at h
      obtain ⟨next, hnext, hrest⟩ := Option.bind_eq_some_iff.1 h
      exact ih (isOutside_of_member he.isBare hnext) hrest

/-- Below a function, a variable or a builtin everything lies outside. -/
theorem isOutside_of_members_bare (he : e.IsBare) (hne : names ≠ [])
    (h : b.members e names = some e') : e'.IsOutside := by
  obtain ⟨name, names, rfl⟩ := List.exists_cons_of_ne_nil hne
  rw [members, List.foldlM_cons] at h
  obtain ⟨next, hnext, hrest⟩ := Option.bind_eq_some_iff.1 h
  exact isOutside_of_members (isOutside_of_member he hnext) hrest

theorem isBare_of_members_bare (he : e.IsBare) (h : b.members e names = some e') : e'.IsBare := by
  cases names with
  | nil => exact Option.some.inj h ▸ he
  | cons name names => exact (isOutside_of_members_bare he (List.cons_ne_nil name names) h).isBare

/-! ## A segment with the character -/

/-- A name declared by an import is one that an import of the file binds. -/
theorem import_of_declared? {i : Import} (h : b.declared? file name = some (.imported i)) :
    ∃ m, b.file? file = some m ∧ i ∈ m.definitions.imports ∧ i.boundName = name := by
  rw [declared?, Option.orElse_eq_some, Option.orElse_eq_some, Option.orElse_eq_some] at h
  rcases h with hclass | ⟨-, hfunction | ⟨-, hassignment | ⟨-, himport⟩⟩⟩
  · split at hclass
    · cases hclass
    · obtain ⟨_, _, hsame⟩ := Option.map_eq_some_iff.1 hclass
      cases hsame
  · obtain ⟨_, _, hsame⟩ := Option.map_eq_some_iff.1 hfunction
    cases hsame
  · obtain ⟨_, _, hsame⟩ := Option.map_eq_some_iff.1 hassignment
    cases hsame
  · obtain ⟨m, hm, hfound⟩ := Option.bind_eq_some_iff.1 himport
    obtain ⟨j, hj, hsame⟩ := Option.map_eq_some_iff.1 hfound
    cases hsame
    refine ⟨m, hm, List.mem_reverse.1 (List.mem_of_find?_eq_some hj), ?_⟩
    simpa using List.find?_some hj

section Plain

variable (hplain : b.IsPlain c)

include hplain

/-- No module has a name with the character. -/
theorem hasModule_eq_false (hname : c ∈ name.toList) : b.hasModule name = false := by
  cases hfile : b.moduleFile? name with
  | none =>
      rw [hasModule, hfile]
      rfl
  | some file =>
      obtain ⟨m, hm, rfl⟩ := name_of_moduleFile? hfile
      exact absurd hname (hplain.modules m (List.mem_of_getElem? hm))

/-- What a file declares by a name with the character is no class. -/
theorem isBare_of_entityIn (hname : c ∈ name.toList) {levels : Nat}
    (h : b.entityIn levels file name = some e) : e.IsBare := by
  cases levels with
  | zero => cases h
  | succ levels =>
      rw [entityIn] at h
      split at h
      · cases h
      · next id hdeclared =>
          obtain ⟨entry, hentry, -, rfl⟩ :=
            exists_of_classAtPath? (classAtPath?_of_declared? hdeclared)
          exact absurd hname (hplain.classes entry (List.mem_of_getElem? hentry))
      · exact Option.some.inj h ▸ trivial
      · exact Option.some.inj h ▸ trivial
      · next i hdeclared =>
          obtain ⟨m, hm, hi, rfl⟩ := import_of_declared? hdeclared
          exact absurd hname (hplain.imports m (List.mem_of_getElem? hm) i hi)

/-- A member by a name with the character is no class and no module. -/
theorem isBare_of_member (hname : c ∈ name.toList) (h : b.member e name = some e') :
    e'.IsBare := by
  by_cases he : e.IsBare
  · exact (isOutside_of_member he h).isBare
  · cases e with
    | external outer => exact absurd trivial he
    | function id => exact absurd trivial he
    | assignment id => exact absurd trivial he
    | builtin outer => exact absurd trivial he
    | classDef id =>
        rw [member] at h
        obtain ⟨entry, -, hentry⟩ := Option.bind_eq_some_iff.1 h
        obtain ⟨id', hid', rfl⟩ := Option.map_eq_some_iff.1 hentry
        obtain ⟨found, hfound, -, hpath⟩ := exists_of_classAtPath? hid'
        refine absurd ?_ (hplain.classes found (List.mem_of_getElem? hfound))
        rw [hpath, below, String.toList_append]
        exact List.mem_append_right _ hname
    | module outer =>
        -- a module could only be a submodule, and its name would have the character
        have hsubmodule : b.hasModule (qualify outer name) = false := by
          refine hasModule_eq_false hplain (c := c) ?_
          rw [qualify]
          split
          · exact hname
          · rw [below, String.toList_append]
            exact List.mem_append_right _ hname
        rw [member, memberOfModule, hsubmodule] at h
        split at h
        · next home _ =>
            rw [Option.orElse_eq_some] at h
            rcases h with hfound | ⟨-, hnone⟩
            · exact isBare_of_entityIn hplain hname hfound
            · cases hnone
        · exact Option.some.inj h ▸ trivial

/-- Below a segment with the character there is no class and no module. -/
theorem isBare_of_members (hnames : ∃ s ∈ names, c ∈ s.toList)
    (h : b.members e names = some e') : e'.IsBare := by
  induction names generalizing e with
  | nil =>
      obtain ⟨s, hs, -⟩ := hnames
      exact absurd hs List.not_mem_nil
  | cons name names ih =>
      rw [members, List.foldlM_cons] at h
      obtain ⟨next, hnext, hrest⟩ := Option.bind_eq_some_iff.1 h
      obtain ⟨s, hs, hc⟩ := hnames
      rcases List.mem_cons.1 hs with rfl | hs
      · exact isBare_of_members_bare (isBare_of_member hplain hc hnext) hrest
      · exact ih ⟨s, hs, hc⟩ hrest

end Plain

/-! ## Texts with the character -/

theorem mem_trim {cs : List Char} (hc : c ∈ cs) (hblank : isBlank c = false) : c ∈ trim cs := by
  have hstart : ∀ cs : List Char, c ∈ cs → c ∈ cs.dropWhile isBlank := by
    intro cs hc
    rw [← List.takeWhile_append_dropWhile (p := isBlank) (l := cs)] at hc
    rcases List.mem_append.1 hc with hbefore | hafter
    · have hall := List.all_takeWhile (p := isBlank) (l := cs)
      rw [List.all_eq_true] at hall
      rw [hall c hbefore] at hblank
      exact Bool.noConfusion hblank
    · exact hafter
  rw [trim, trimEnd, List.mem_reverse]
  exact hstart _ (List.mem_reverse.2 (hstart _ hc))

/-- Some segment of a text with the character has it. -/
theorem exists_mem_segmentsOf (hc : IsForeign c) (h : c ∈ text.toList) :
    ∃ s ∈ segmentsOf text, c ∈ s.toList := by
  rcases exists_piece_of_mem (p := (· == '.')) h with hdot | ⟨part, hpart, hmem⟩
  · exact absurd (beq_iff_eq.1 hdot) hc.ne_dot
  · refine ⟨trimmed (String.ofList part), ?_, ?_⟩
    · exact List.mem_map_of_mem (List.mem_map_of_mem hpart)
    · rw [trimmed, String.toList_ofList, String.toList_ofList]
      exact mem_trim hmem hc.blank

/-! ## What comes before the last segments -/

/-- An expression below another has the segments of both. -/
theorem segmentsOf_below (text name : String) :
    segmentsOf (below text name) = segmentsOf text ++ segmentsOf name := by
  rw [segmentsOf, segments_below, List.map_append]
  rfl

theorem exists_segmentsOf_eq_cons (text : String) :
    ∃ first rest, segmentsOf text = first :: rest := by
  refine List.exists_cons_of_ne_nil ?_
  rw [segmentsOf, ne_eq, List.map_eq_nil_iff]
  exact segments_ne_nil text

/-- Members are looked up one after another. -/
theorem members_append (e : Entity) (names further : List String) :
    b.members e (names ++ further) = (b.members e names).bind fun e => b.members e further := by
  rw [members, List.foldlM_append]
  rfl

/-- A name below a text is looked up as a member of what the text means. -/
theorem resolve_below (text name : String) : b.resolve file (below text name) =
    (b.resolve file text).bind fun e => b.members e (segmentsOf name) := by
  obtain ⟨first, rest, hsegments⟩ := exists_segmentsOf_eq_cons text
  rw [resolve, resolve, segmentsOf_below, hsegments, List.cons_append]
  dsimp only
  split
  · rfl
  · cases b.entityIn fileBound file first <|> b.builtinEntity first with
    | none => rfl
    | some e => exact members_append e rest (segmentsOf name)

/-- What stands below an expression is a member of what the expression stands for. -/
theorem resolveFrom_below (scope : ScopeId) (text name : String) :
    b.resolveFrom scope (below text name) =
      (b.resolveFrom scope text).bind fun e => b.members e (segmentsOf name) := by
  obtain ⟨first, rest, hsegments⟩ := exists_segmentsOf_eq_cons text
  rw [resolveFrom, resolveFrom, segmentsOf_below, hsegments, List.cons_append]
  cases b.scope? scope with
  | none => rfl
  | some inner =>
      dsimp only
      split
      · exact resolve_below text name
      · next binder _ =>
          split
          · exact resolve_below text name
          · split
            · rfl
            · simp only [members_append]
              exact (Option.bind_assoc _ _ _).symm

section Plain

variable (hc : IsForeign c) (hplain : b.IsPlain c) (htext : c ∈ text.toList)

include hc hplain htext

/-- What a file means by a text with the character is no class and no module. -/
theorem isBare_of_resolve (h : b.resolve file text = some e) : e.IsBare := by
  obtain ⟨s, hs, hmem⟩ := exists_mem_segmentsOf hc htext
  rw [resolve] at h
  split at h
  · cases h
  · next first rest hsegments =>
      rw [hsegments] at hs
      split at h
      · cases h
      · split at h
        · cases h
        · next start hstart =>
            rcases List.mem_cons.1 hs with rfl | hs
            · refine isBare_of_members_bare ?_ h
              rw [Option.orElse_eq_some] at hstart
              rcases hstart with hdeclared | ⟨-, hbuiltin⟩
              · exact isBare_of_entityIn hplain hmem hdeclared
              · rw [builtinEntity] at hbuiltin
                split at hbuiltin
                · exact Option.some.inj hbuiltin ▸ trivial
                · cases hbuiltin
            · exact isBare_of_members hplain ⟨s, hs, hmem⟩ h

/-- A text with the character means no class. -/
theorem resolve_ne_class (id : ClassId) : b.resolve file text ≠ some (.classDef id) :=
  fun h => (isBare_of_resolve hc hplain htext h).elim

/-- What a scope means by a text with the character is no class and no module. -/
theorem isBare_of_resolveFrom {scope : ScopeId} (h : b.resolveFrom scope text = some e) :
    e.IsBare := by
  obtain ⟨s, hs, hmem⟩ := exists_mem_segmentsOf hc htext
  rw [resolveFrom] at h
  split at h
  · next inner first rest _ hsegments =>
      rw [hsegments] at hs
      split at h
      · exact isBare_of_resolve hc hplain htext h
      · next binder hbinder =>
          split at h
          · exact isBare_of_resolve hc hplain htext h
          · split at h
            · cases h
            · next i hi =>
                obtain ⟨start, hstart, hmembers⟩ := Option.bind_eq_some_iff.1 h
                rcases List.mem_cons.1 hs with rfl | hs
                · -- the scope binds no such name by an import
                  obtain ⟨found, -, hscope⟩ := Option.bind_eq_some_iff.1 hbinder
                  have himport := List.mem_reverse.1 (List.mem_of_find?_eq_some hi)
                  have hname : i.boundName = s := by simpa using List.find?_some hi
                  refine absurd hmem ?_
                  rw [← hname]
                  exact hplain.scopes binder (List.mem_of_getElem? hscope) i himport
                · exact isBare_of_members hplain ⟨s, hs, hmem⟩ hmembers
  · cases h

/-- **Names behind a foreign character.** A name below a text with the character means nothing in
the codebase. -/
theorem isOutside_of_resolveFrom {scope : ScopeId}
    (h : b.resolveFrom scope (below text name) = some e) : e.IsOutside := by
  rw [resolveFrom_below] at h
  obtain ⟨start, hstart, hmembers⟩ := Option.bind_eq_some_iff.1 h
  refine isOutside_of_members_bare (isBare_of_resolveFrom hc hplain htext hstart) ?_ hmembers
  obtain ⟨first, rest, hsegments⟩ := exists_segmentsOf_eq_cons name
  rw [hsegments]
  exact List.cons_ne_nil first rest

end Plain

end Codebase

end CallFill
