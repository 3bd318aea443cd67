import CallFill.ProjectHost
import CallFill.Proofs.Codebase.FileOrder
import CallFill.Proofs.Definition.CollectedClasses
import CallFill.Proofs.Text.Names

/-!
# What the names of a project are made of

The names by which a project knows its classes, and those that imports bind, are made of letters,
digits, underscores and dots, in the module as in the scopes of its functions and classes. No other
character stands in them, as long as none stands in the name of a module, which comes from a path
(`Project.isPlain_ofSources`).
-/

namespace CallFill

open Source SyntaxTree Text Definition Outline

/-- No name is made with the character, and it is not a blank. -/
structure IsForeign (c : Char) : Prop where
  name : Text.isNameChar c = false
  blank : isBlank c = false

/-- A closing parenthesis stands in no name. -/
theorem isForeign_closing : IsForeign ')' := ⟨by decide, by decide⟩

variable {c : Char}

theorem IsForeign.ne_dot (h : IsForeign c) : c ≠ '.' := by
  rintro rfl
  exact Bool.noConfusion h.name

/-- Identifiers are made of the characters of names. -/
theorem IsForeign.not_mem_identifier (h : IsForeign c) {cs : List Char} (hcs : IsIdentifier cs) :
    c ∉ cs := by
  intro hc
  have hname := hcs.isNameChar c hc
  rw [h.name] at hname
  exact Bool.noConfusion hname

/-! ## Imports -/

namespace Import

/-- What stands in the paths of imports stands in names. -/
theorem isNameChar_of_isPathChar (h : isPathChar c = true) : Text.isNameChar c = true := by
  rw [isPathChar, Bool.or_eq_true, Bool.or_eq_true] at h
  rw [Text.isNameChar, Bool.or_eq_true, isIdentifierRest]
  rcases h with (halphanum | hunderscore) | hdot
  · have hascii : c.toNat < 0x80 := by
      have hrange := isAlphanum_iff.1 halphanum
      omega
    rw [if_pos hascii, halphanum]
    exact Or.inl rfl
  · obtain rfl := beq_iff_eq.1 hunderscore
    exact Or.inl rfl
  · exact Or.inr hdot

theorem not_mem_of_isPath (hc : IsForeign c) {cs : List Char} (h : isPath cs = true) :
    c ∉ cs := by
  intro hmem
  rw [isPath, Bool.and_eq_true, List.all_eq_true] at h
  have hname := isNameChar_of_isPathChar (h.2 c hmem)
  rw [hc.name] at hname
  exact Bool.noConfusion hname

/-- An identifier is a path of one segment. -/
theorem isPath_of_isIdentifier {cs : List Char} (h : isIdentifier cs = true) :
    isPath cs = true := by
  cases cs with
  | nil => exact h
  | cons d ds =>
      rw [isIdentifier, Bool.and_eq_true, List.all_eq_true] at h
      rw [isPath, Bool.and_eq_true, List.all_eq_true]
      refine ⟨rfl, List.forall_mem_cons.2 ⟨?_, fun e he => ?_⟩⟩
      · rcases Bool.or_eq_true_iff.1 h.1 with halpha | hunderscore
        · rw [isPathChar, Char.isAlphanum, halpha]
          rfl
        · rw [isPathChar, hunderscore, Bool.or_true]
          rfl
      · rw [isPathChar, h.2 e he, Bool.true_or]

/-- The names of an item and of its alias are paths. -/
theorem isPath_of_item? {ws : List (List Char)} {name : String} {asName : Option String}
    (h : item? ws = some (name, asName)) :
    isPath name.toList = true ∧ ∀ s ∈ asName, isPath s.toList = true := by
  unfold item? at h
  split at h
  · split at h
    · next hpath =>
        obtain ⟨rfl, rfl⟩ := Prod.mk.inj (Option.some.inj h)
        exact ⟨by rwa [String.toList_ofList], by simp⟩
    · exact nomatch h
  · split at h
    · next hpath =>
        obtain ⟨hname, has⟩ := Bool.and_eq_true_iff.1 hpath
        obtain ⟨rfl, rfl⟩ := Prod.mk.inj (Option.some.inj h)
        refine ⟨by rwa [String.toList_ofList], ?_⟩
        intro s hs
        obtain rfl := Option.mem_some.1 hs
        rw [String.toList_ofList]
        exact isPath_of_isIdentifier has
    · exact nomatch h
  · exact nomatch h

theorem not_mem_first {name : String} (h : c ∉ name.toList) :
    c ∉ (Dotted.first name).toList := by
  intro hmem
  rw [Dotted.first, String.toList_ofList] at hmem
  exact h ((List.takeWhile_prefix _).subset hmem)

/-- The names that an import statement binds are made of what names are made of. -/
theorem not_mem_boundName (hc : IsForeign c) {text : String} {line : Nat} {i : Import}
    (h : i ∈ ofStatement text line) : c ∉ i.boundName.toList := by
  unfold ofStatement at h
  split at h
  · split at h
    · obtain ⟨⟨name, asName⟩, hitem, rfl⟩ := List.mem_map.1 h
      obtain ⟨piece, -, hpiece⟩ := List.mem_filterMap.1 hitem
      obtain ⟨hname, has⟩ := isPath_of_item? hpiece
      cases asName with
      | none => exact not_mem_of_isPath hc hname
      | some s => exact not_mem_of_isPath hc (has s rfl)
    · exact absurd h List.not_mem_nil
  · obtain ⟨⟨name, asName⟩, hitem, rfl⟩ := List.mem_map.1 h
    obtain ⟨piece, -, hpiece⟩ := List.mem_filterMap.1 hitem
    obtain ⟨hname, has⟩ := isPath_of_item? hpiece
    cases asName with
    | none => exact not_mem_first (not_mem_of_isPath hc hname)
    | some s => exact not_mem_of_isPath hc (has s rfl)
  · exact absurd h List.not_mem_nil

end Import

/-- The import is read off an import statement. -/
def Import.IsRead (i : Import) : Prop :=
  ∃ text line, i ∈ Import.ofStatement text line

section Definitions

variable {source : List Char}

/-- The imports of a statement are read off its text. -/
theorem Definition.isRead_imports (t : SyntaxTree) :
    ∀ i ∈ Definition.imports source t, i.IsRead :=
  fun _ hi => ⟨_, _, hi⟩

mutual

/-- The imports of a module are read off its import statements. -/
theorem Definition.isRead_ofStatement :
    ∀ t : SyntaxTree, ∀ i ∈ (ofStatement source t).imports, i.IsRead
  | .node kind role start stop children => by
      have hnone : ∀ i ∈ ([] : List Import), i.IsRead := fun i hi => absurd hi List.not_mem_nil
      have hdecorated : ∀ t, ∀ i ∈ (decoratedDefinitions source t).imports, i.IsRead := by
        intro t
        unfold decoratedDefinitions
        split
        · exact hnone
        · dsimp only
          split <;> exact hnone
      unfold ofStatement
      dsimp only
      split
      · exact isRead_imports _
      · split
        · exact isRead_ofParts children
        · split
          · exact hnone
          · exact hnone
          · exact hdecorated _
          · exact hnone
          · exact hnone
          · exact hnone
termination_by structural t => t

theorem Definition.isRead_ofStatements :
    ∀ ts : List SyntaxTree, ∀ i ∈ (ofStatements source ts).imports, i.IsRead
  | [] => fun _ hi => absurd hi List.not_mem_nil
  | t :: ts => List.forall_mem_append.2 ⟨isRead_ofStatement t, isRead_ofStatements ts⟩
termination_by structural ts => ts

theorem Definition.isRead_ofParts :
    ∀ ts : List SyntaxTree, ∀ i ∈ (ofParts source ts).imports, i.IsRead
  | [] => fun _ hi => absurd hi List.not_mem_nil
  | .node kind role start stop children :: parts => by
      rw [ofParts]
      refine List.forall_mem_append.2 ⟨?_, isRead_ofParts parts⟩
      split
      · exact isRead_ofStatements children
      · split
        · exact isRead_ofParts children
        · exact fun _ hi => absurd hi List.not_mem_nil
termination_by structural ts => ts

end

end Definitions

/-! ## Imports of scopes -/

namespace Outline

/-- The imports that scopes remember are read off import statements. -/
def AllRead (o : Outline) : Prop :=
  ∀ s ∈ o.scopes, ∀ i ∈ s.imports, i.IsRead

variable {source : List Char} {o : Outline}

/-- A scope may be changed in any way that only adds imports which are read off a text. -/
theorem AllRead.modify (h : AllRead o) {k : Nat} {f : ScopeDef → ScopeDef}
    (hf : ∀ s ∈ o.scopes, ∀ i ∈ (f s).imports, i.IsRead) :
    AllRead { o with scopes := o.scopes.modify k f } := by
  intro s hs
  obtain ⟨j, hj⟩ := List.getElem?_of_mem hs
  rw [List.getElem?_modify] at hj
  obtain ⟨s', hs', rfl⟩ := Option.map_eq_some_iff.1 hj
  have hmem := List.mem_of_getElem? hs'
  split
  · exact hf s' hmem
  · exact h s' hmem

theorem AllRead.bind (h : AllRead o) (k : Nat) (name : String) : AllRead (o.bind k name) :=
  h.modify h

theorem AllRead.bindParameter (h : AllRead o) (k : Nat) (name : String) :
    AllRead (o.bindParameter k name) :=
  h.modify h

/-- An import that is read off a text may be bound. -/
theorem AllRead.bindImport (h : AllRead o) (k : Nat) {i : Import} (hi : i.IsRead) :
    AllRead (o.bindImport k i) := by
  have hbound := h.bind k i.boundName
  refine hbound.modify fun s hs => ?_
  split
  · exact hbound s hs
  · exact List.forall_mem_append.2 ⟨hbound s hs, by simpa using hi⟩

/-- A scope that is entered has no imports yet. -/
theorem AllRead.enter (h : AllRead o) (kind : ScopeKind) (parent : Nat) :
    AllRead (o.enter kind parent) := by
  refine List.forall_mem_append.2 ⟨h, ?_⟩
  intro s hs i hi
  rw [List.mem_singleton.1 hs] at hi
  exact absurd hi List.not_mem_nil

theorem AllRead.recordCall (h : AllRead o) (here : Place) (t : SyntaxTree) :
    AllRead (recordCall source here t o) := by
  rw [Outline.recordCall]
  split <;> exact h

/-- All imports of the scopes of a module are read off its text. -/
theorem allRead_ofTree (source : List Char) {root : SyntaxTree} (hroot : root.kind = .module) :
    AllRead (ofTree source root) := by
  refine ofTree_of_step hroot ?_ fun w w' hstep h => ?_
  · intro s hs i hi
    rw [List.mem_singleton.1 hs] at hi
    exact absurd hi List.not_mem_nil
  · cases hstep with
    | bind _ _ _ => exact h.bind _ _
    | bindImport _ _ _ hi => exact h.bindImport _ (Definition.isRead_imports _ _ hi)
    | bindParameter _ _ => exact h.bindParameter _ _
    | enterFunction _ _ _ => exact h.enter _ _
    | enterClass _ _ _ => exact h.enter _ _
    | recordCall _ _ _ => exact h.recordCall _ _

end Outline

/-! ## Paths of classes -/

section Classes

variable {text : List Char} {root t b : SyntaxTree} {blocks : List SyntaxTree} {path : String}

/-- What holds of all parts of the module holds of what stands in it. -/
theorem Source.SyntaxTree.Stands.allParts {P : SyntaxTree → Prop} (hroot : AllParts P root)
    (h : Stands root blocks t) : AllParts P t :=
  fun u hu => hroot u (hu.trans h.isPart)

/-- A class path is made of the names of the classes around it. -/
theorem not_mem_classPath (hc : IsForeign c)
    (hnames : ∀ b ∈ blocks, b.kind = .classDefinition → c ∉ (className text b).toList)
    (h : classPath text blocks = some path) : c ∉ path.toList := by
  induction blocks generalizing path with
  | nil => exact nomatch h
  | cons b outer ih =>
      obtain ⟨hb, houter⟩ := List.forall_mem_cons.1 hnames
      rw [classPath] at h
      split at h
      · next hkind =>
          split at h
          · next path' _ hpath _ =>
              obtain rfl := Option.some.inj h
              rw [Dotted.below, String.toList_append, String.toList_append]
              have hdot : c ∉ ".".toList := by simpa using hc.ne_dot
              simp only [List.mem_append, not_or]
              exact ⟨⟨ih houter hpath, hdot⟩, hb hkind⟩
          · obtain rfl := Option.some.inj h
            exact hb hkind
      · exact ih houter h

/-- The name of a class is an identifier. -/
theorem not_mem_className (hc : IsForeign c) (hnamed : AllParts (Named (HoldsName text)) t)
    (ht : t.kind = .classDefinition) : c ∉ (className text t).toList := by
  obtain ⟨n, hn, hname⟩ := exists_name_of_definition hnamed (by rw [ht]; rfl)
  rw [className, hn, Option.elim_some]
  exact hc.not_mem_identifier hname

/-- The path of a class of a text is made of names. -/
theorem Definition.not_mem_name (hc : IsForeign c) {d : ClassDef}
    (hd : d ∈ (ofStatements text (parse text).children).classes) : c ∉ d.name.toList := by
  rw [classes_ofStatements] at hd
  obtain ⟨k, hk, rfl⟩ := List.mem_map.1 hd
  obtain ⟨hstands, hkind, hpath⟩ := isPlaced_collectedIn text k hk
  rw [Collected.name_read]
  refine not_mem_classPath hc (List.forall_mem_cons.2 ⟨fun hclass => ?_, ?_⟩) hpath
  · exact not_mem_className hc (hstands.allParts (named_parse text)) hclass
  · intro b hb hclass
    obtain ⟨outer, hstands⟩ := hstands.exists_of_mem hb
    exact not_mem_className hc (hstands.allParts (named_parse text)) hclass

end Classes

/-! ## The names of a project -/

/-- No class path, name bound by an import, or name of a module has the character. -/
structure Codebase.IsPlain (b : Codebase) (c : Char) : Prop where
  classes : ∀ e ∈ b.classes, c ∉ e.definition.name.toList
  imports : ∀ m ∈ b.files, ∀ i ∈ m.definitions.imports, c ∉ i.boundName.toList
  scopes : ∀ s ∈ b.scopes, ∀ i ∈ s.imports, c ∉ i.boundName.toList
  modules : ∀ m ∈ b.files, c ∉ m.name.toList

/-- The scopes of a codebase are those of its modules. -/
theorem Codebase.mem_scopes_foldl_add {modules : List SourceModule} {b : Codebase}
    {s : ScopeRecord} (h : s ∈ (modules.foldl Codebase.add b).scopes) :
    s ∈ b.scopes ∨ ∃ m ∈ modules, ∃ d ∈ m.outline.scopes, s.imports = d.imports := by
  induction modules generalizing b with
  | nil => exact Or.inl h
  | cons m modules ih =>
      rcases ih h with hbefore | ⟨m', hm', hfound⟩
      · rw [scopes_add] at hbefore
        rcases List.mem_append.1 hbefore with hbefore | hnew
        · exact Or.inl hbefore
        · obtain ⟨d, hd, rfl⟩ := List.mem_map.1 hnew
          exact Or.inr ⟨m, List.mem_cons_self, d, hd, rfl⟩
      · exact Or.inr ⟨m', List.mem_cons_of_mem m hm', hfound⟩

/-- **The names of a project.** Nothing that a project knows by name has another character in it
than names have, if the names of its modules have not. -/
theorem Project.isPlain_ofSources (hc : IsForeign c) {config : Config}
    {sources : List (String × String)}
    (hmodules : ∀ s ∈ sources, c ∉ (ModuleName.ofPath s.1).1.toList) :
    (ofSources config sources).IsPlain c := by
  have hfiles := @files_ofSources parse config sources
  refine ⟨?_, ?_, ?_, ?_⟩
  · intro e he
    have hclasses := (recorded_ofSources config sources parse).classes
    obtain ⟨m, hm⟩ := hclasses.has_file e he
    have hlisted : e.definition ∈ m.definitions.classes := by
      rw [← hclasses.of_file e.file m hm]
      exact List.mem_map_of_mem (List.mem_filter.2 ⟨he, decide_eq_true rfl⟩)
    have hmem := List.mem_of_getElem? hm
    rw [hfiles] at hmem
    obtain ⟨⟨path, text⟩, -, rfl⟩ := List.mem_map.1 hmem
    exact Definition.not_mem_name hc hlisted
  · intro m hm i hi
    rw [hfiles] at hm
    obtain ⟨⟨path, text⟩, -, rfl⟩ := List.mem_map.1 hm
    obtain ⟨_, _, hread⟩ := Definition.isRead_ofStatements _ i hi
    exact Import.not_mem_boundName hc hread
  · intro s hs i hi
    rcases Codebase.mem_scopes_foldl_add hs with hnone | ⟨m, hm, d, hd, himports⟩
    · exact absurd hnone List.not_mem_nil
    · obtain ⟨⟨path, text⟩, -, rfl⟩ := List.mem_map.1 hm
      rw [himports] at hi
      obtain ⟨_, _, hread⟩ := allRead_ofTree text.toList (kind_parse text.toList) d hd i hi
      exact Import.not_mem_boundName hc hread
  · intro m hm
    rw [hfiles] at hm
    obtain ⟨⟨path, text⟩, hsource, rfl⟩ := List.mem_map.1 hm
    exact hmodules _ hsource

end CallFill
