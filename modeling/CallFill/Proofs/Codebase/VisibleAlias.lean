import CallFill.Proofs.Codebase.ImportForms
import CallFill.Proofs.Codebase.SymbolClasses
import CallFill.ProjectHost

/-!
# Names through imports

A symbol that a file imports already is written by the name that the import gives it. What a
member import binds is looked up, so it is the symbol (`Project.resolve_of_aliasByMember`). Of a
module import only the text is compared: the expression is the symbol's qualified name, with the
name the import binds in place of the module. It means the symbol where the first name means what is
imported and every step below is known by its path (`Project.resolve_of_visibleAlias`). As long as
the import is all that binds its name, this holds for whatever lies outside of the project
(`Project.importsLeadTo_of_outside`), and for the classes of its modules where every package is a
module (`Project.importsLeadTo_of_moduleClass`).

Where something else binds the first name, the expression is given all the same and means that
(`Project.not_resolve_visibleAlias`).
-/

namespace CallFill

open Dotted

namespace Codebase

variable {b : Codebase} {file : FileId} {m : SourceModule} {i : Import}

/-! ## Walks along qualified names -/

/-- Every step of a walk down from an entity is known by the name of what it starts from with the
name of the step below it. -/
inductive KeepsNames (b : Codebase) : Entity → List String → Prop where
  | done {e : Entity} : KeepsNames b e []
  | step {e e' : Entity} {name : String} {names : List String} :
      b.member e name = some e' → b.qualifiedName e' = qualify (b.qualifiedName e) name →
      KeepsNames b e' names → KeepsNames b e (name :: names)

theorem KeepsNames.members {e : Entity} {names : List String} (h : b.KeepsNames e names) :
    ∃ e', b.members e names = some e' ∧
      b.qualifiedName e' = names.foldl qualify (b.qualifiedName e) := by
  induction h with
  | @done e => exact ⟨e, rfl, rfl⟩
  | @step e e' name names hmember hname _ ih =>
      obtain ⟨e'', hmembers, hqualified⟩ := ih
      refine ⟨e'', ?_, ?_⟩
      · rw [Codebase.members, List.foldlM_cons, hmember]
        exact hmembers
      · rw [hqualified, hname, List.foldl_cons]

/-- Outside of the codebase every name is kept. -/
theorem keepsNames_external (outer : String) (names : List String) :
    b.KeepsNames (.external outer) names := by
  induction names generalizing outer with
  | nil => exact .done
  | cons name names ih => exact .step rfl rfl (ih (qualify outer name))

/-- No module of the codebase lies in the package that a module lies in. -/
def Outside (b : Codebase) (module : String) : Prop :=
  ∀ m ∈ b.files, first m.name ≠ first module

theorem moduleFile?_of_outside {module name : String} (h : b.Outside module)
    (hfirst : first name = first module) : b.moduleFile? name = none := by
  rw [moduleFile?, Option.map_eq_none_iff, List.findIdx?_eq_none_iff]
  intro m hm
  refine decide_eq_false ?_
  rintro rfl
  exact h m hm hfirst

/-- A module from outside keeps every name. -/
theorem keepsNames_of_outside {module : String} (h : b.Outside module) (hne : module ≠ "")
    (names : List String) : b.KeepsNames (.module module) names := by
  cases names with
  | nil => exact .done
  | cons name names =>
      have hbelow : first (qualify module name) = first module := by
        rw [qualify, if_neg hne, first_below]
      have hmember : b.member (.module module) name = some (.external (qualify module name)) := by
        rw [member, memberOfModule, moduleFile?_of_outside h rfl]
        dsimp only
        rw [hasModule, moduleFile?_of_outside h hbelow]
        rfl
      exact .step hmember rfl (keepsNames_external _ names)

/-- A class is known by its module's name and its own. -/
theorem qualifiedName_of_declared? (hrecorded : b.Recorded) {name : String} {id : ClassId}
    (hm : b.file? file = some m) (h : b.declared? file name = some (.classDef id)) :
    b.qualifiedName (.classDef id) = qualify m.name name := by
  obtain ⟨c, hc, rfl, rfl⟩ := exists_of_classAtPath? (classAtPath?_of_declared? h)
  rw [qualifiedName, hc]
  exact hrecorded.qualifiedName_eq c (List.mem_of_getElem? hc) m hm

theorem name_of_moduleFile? {name : String} (h : b.moduleFile? name = some file) :
    ∃ m, b.file? file = some m ∧ m.name = name := by
  obtain ⟨index, hindex, rfl⟩ := Option.map_eq_some_iff.1 h
  obtain ⟨hlt, hname, -⟩ := List.findIdx?_eq_some_iff_getElem.1 hindex
  exact ⟨_, List.getElem?_eq_getElem hlt, of_decide_eq_true hname⟩

/-- On the way to a class of a module, every name is kept where every package from the second on is
a module. -/
theorem ModuleClass.keepsNames {parts : List String} {className : String} {id : ClassId}
    (h : b.ModuleClass parts className id) (hrecorded : b.Recorded)
    (hmodules : ∀ package, package <+: parts → 2 ≤ package.length →
      b.hasModule (ofSegments package) = true)
    {package : List String} (further : List String) (hne : package ≠ [])
    (hsplit : package ++ further = parts) :
    b.KeepsNames (.module (ofSegments package)) (further ++ [className]) := by
  induction further generalizing package with
  | nil =>
      rw [List.append_nil] at hsplit
      subst hsplit
      obtain ⟨home, hhome, hdeclared⟩ := h.declared
      obtain ⟨m, hm, hname⟩ := name_of_moduleFile? hhome
      have hmember : b.member (.module (ofSegments package)) className = some (.classDef id) :=
        h.memberOfModule_eq
      -- at the last step the module declares the class, under its qualified name
      refine .step hmember ?_ .done
      rw [qualifiedName_of_declared? hrecorded hm hdeclared, hname]
      rfl
  | cons next further ih =>
      have hsplit' : (package ++ [next]) ++ further = parts := by
        rw [List.append_assoc]
        exact hsplit
      have hbegins : package ++ [next] <+: parts := ⟨further, hsplit'⟩
      have hlength : 2 ≤ (package ++ [next]).length := by
        have hpositive := List.length_pos_iff.2 hne
        rw [List.length_append, List.length_singleton]
        omega
      have hmember : b.member (.module (ofSegments package)) next =
          some (.module (ofSegments (package ++ [next]))) :=
        h.memberOfModule_package hne hbegins (hmodules _ hbegins hlength)
      refine .step hmember ?_ (ih (by simp) hsplit')
      exact (qualify_ofSegments hne (fun s hs =>
        h.segments s (hbegins.mem (List.mem_append_left _ hs))) next).symm

/-! ## What follows the first segment -/

/-- What follows the first segment of a name is looked up below what the first segment means. -/
theorem resolve_cons {s : String} {names : List String} (hs : ∀ t ∈ s :: names, IsSegment t) :
    b.resolve file (ofSegments (s :: names)) =
      (b.resolve file s).bind fun e => b.members e names := by
  have hfirst := hs s List.mem_cons_self
  have hsingle : segmentsOf s = [s] := by
    have hsegments := segmentsOf_ofSegments (List.cons_ne_nil s [])
      fun t ht => List.mem_singleton.1 ht ▸ hfirst
    rwa [ofSegments_singleton] at hsegments
  rw [resolve, resolve, segmentsOf_ofSegments (List.cons_ne_nil s names) hs, hsingle]
  dsimp only
  rw [if_neg hfirst.ne_empty, if_neg hfirst.ne_empty]
  cases b.entityIn fileBound file s <|> b.builtinEntity s with
  | none => rfl
  | some e => rfl

/-- What an import alone binds means what the import names. -/
theorem resolve_boundName (hrecorded : b.Recorded) (hm : b.file? file = some m)
    (h : m.BindsOnly i) (hbound : IsSegment i.boundName) {start : String}
    (htarget : importTarget m i = some (start, none)) :
    b.resolve file i.boundName = some (.module start) := by
  have himport : b.importedEntity (b.entityIn memberFileBound) m i = some (.module start) := by
    rw [importedEntity, htarget]
  have hsegments : ∀ s ∈ [i.boundName], IsSegment s := by
    intro s hs
    rwa [List.mem_singleton.1 hs]
  have hresolve := resolve_of_bindsOnly hrecorded hm h himport hsegments
  rwa [ofSegments_singleton] at hresolve

end Codebase

namespace Project

variable {p : Project} {file : FileId} {m : SourceModule} {s : Symbol} {expression : String}

/-! ## Member imports -/

/-- What a member import is said to bind to a symbol is the symbol. -/
theorem resolve_of_aliasByMember (h : p.aliasByMember? file m s = some expression) :
    ∃ e, p.resolve file expression = some e ∧ p.qualifiedName e = s.qualifiedName := by
  obtain ⟨i, -, hi⟩ := List.exists_of_findSome?_eq_some h
  cases hresolve : p.resolve file i.boundName with
  | none =>
      rw [hresolve] at hi
      exact nomatch hi
  | some e =>
      rw [hresolve] at hi
      dsimp only at hi
      split at hi
      · next hname =>
          obtain rfl := Option.some.inj hi
          exact ⟨e, hresolve, hname⟩
      · exact nomatch hi

/-! ## Module imports -/

theorem below_of_below? {module name rest : String} (h : below? module name = some rest) :
    name = below module rest := by
  rw [below?] at h
  split at h
  · next hbegins =>
      obtain ⟨tail, htail⟩ := List.isPrefixOf_iff_prefix.1 hbegins
      obtain rfl := Option.some.inj h
      rw [← htail, List.drop_left, ← String.toList_inj, ← htail]
      simp [below]
  · cases h

/-- The expression for a symbol below a module that is imported is looked up from the name that
is bound: a way down that leads from what the import names to the symbol's qualified name. -/
theorem exists_walk_of_aliasByModule (h : aliasByModule? m s = some expression)
    (hsegments : ∀ part ∈ segments s.qualifiedName, IsSegment part)
    (hbound : ∀ i ∈ m.definitions.imports, i.name = none → IsSegment i.boundName) :
    ∃ i ∈ m.definitions.imports, i.name = none ∧ ∃ start names,
      Codebase.importTarget m i = some (start, none) ∧ start ≠ "" ∧ names ≠ [] ∧
      (∀ name ∈ names, IsSegment name) ∧ s.qualifiedName = below start (ofSegments names) ∧
      p.resolve file expression =
        (p.resolve file i.boundName).bind fun e => p.members e names := by
  obtain ⟨i, hi, hfound⟩ := List.exists_of_findSome?_eq_some h
  obtain ⟨hmem, hname⟩ := List.mem_filter.1 hi
  have hname : i.name = none := Option.isNone_iff_eq_none.1 hname
  have hfirst := hbound i hmem hname
  obtain ⟨rest, hrest, hexpression⟩ := Option.map_eq_some_iff.1 hfound
  obtain ⟨module, hmodule, hbelow⟩ := Option.bind_eq_some_iff.1 hrest
  have hqualified := below_of_below? hbelow
  rw [hqualified, segments_below] at hsegments
  refine ⟨i, hmem, hname, ?_⟩
  cases hown : i.asName with
  | some own =>
      -- the import's own name stands for the module
      have hboundName : i.boundName = own := by rw [Import.boundName, hown]
      have htarget : Codebase.importTarget m i = some (module, none) := by
        rw [Codebase.importTarget, hmodule, hname, hown]
        rfl
      have hnames : ∀ name ∈ segments rest, IsSegment name :=
        fun name hname => hsegments name (List.mem_append_right _ hname)
      have hparts : ∀ t ∈ i.boundName :: segments rest, IsSegment t := by
        rw [List.forall_mem_cons]
        exact ⟨hfirst, hnames⟩
      refine ⟨module, segments rest, htarget, ?_, segments_ne_nil rest, hnames, ?_, ?_⟩
      · rintro rfl
        exact (hsegments "" (List.mem_append_left _ List.mem_cons_self)).ne_empty rfl
      · rw [hqualified, ofSegments_segments]
      · rw [hown] at hexpression
        rw [← Codebase.resolve_cons hparts, ofSegments_cons _ (segments_ne_nil rest),
          ofSegments_segments, hboundName, ← hexpression]
  | none =>
      -- the path is walked down from its first package
      have hboundName : i.boundName = first i.module := by rw [Import.boundName, hown, hname]
      rw [hboundName] at hfirst
      rw [ModuleName.absolute_of_first hfirst.ne_empty] at hmodule
      obtain rfl := Option.some.inj hmodule
      have htarget : Codebase.importTarget m i = some (first i.module, none) := by
        rw [Codebase.importTarget, ModuleName.absolute_of_first hfirst.ne_empty, hname, hown]
        rfl
      obtain ⟨further, hfurther⟩ := exists_segments_eq_cons i.module
      rw [hfurther, List.cons_append] at hsegments
      have hne : further ++ segments rest ≠ [] := by
        intro hempty
        exact segments_ne_nil rest (List.append_eq_nil_iff.1 hempty).2
      have hparts : s.qualifiedName =
          ofSegments (first i.module :: (further ++ segments rest)) := by
        rw [← List.cons_append, ← hfurther, ← segments_below, ofSegments_segments, hqualified]
      have hnames : ∀ name ∈ further ++ segments rest, IsSegment name :=
        fun name hname => hsegments name (List.mem_cons_of_mem _ hname)
      refine ⟨first i.module, further ++ segments rest, htarget, hfirst.ne_empty, hne, hnames, ?_,
        ?_⟩
      · rw [hparts, ofSegments_cons _ hne]
      · rw [hown] at hexpression
        rw [hboundName, ← Codebase.resolve_cons hsegments, ← hparts]
        exact congrArg (p.resolve file) hexpression.symm

/-- The module imports of a file lead to a symbol: where one names a module that the symbol lies
below, the name it binds means what it imports, and the names on the way from there are kept. -/
def ImportsLeadTo (p : Project) (file : FileId) (m : SourceModule) (s : Symbol) : Prop :=
  ∀ i ∈ m.definitions.imports, ∀ start names,
    Codebase.importTarget m i = some (start, none) →
    names ≠ [] → (∀ name ∈ names, IsSegment name) →
    s.qualifiedName = below start (ofSegments names) →
      p.resolve file i.boundName = some (.module start) ∧ p.KeepsNames (.module start) names

/-- **What a file is said to name a symbol by means the symbol.** An expression always does through
a member import, and through a module import where the module imports of the file lead to the
symbol. -/
theorem resolve_of_visibleAlias {symbol : SymbolId} (hs : p.symbols.get? symbol = some s)
    (hm : p.file? file = some m) (h : p.visibleAlias? file symbol = some expression)
    (hsegments : ∀ part ∈ segments s.qualifiedName, IsSegment part)
    (hbound : ∀ i ∈ m.definitions.imports, i.name = none → IsSegment i.boundName)
    (hleads : p.ImportsLeadTo file m s) :
    ∃ e, p.resolve file expression = some e ∧ p.qualifiedName e = s.qualifiedName := by
  rw [visibleAlias?, hs, hm] at h
  rcases (Option.orElse_eq_some _ _ _).1 h with hmember | ⟨-, hmodule⟩
  · exact resolve_of_aliasByMember hmember
  · obtain ⟨i, hi, -, start, names, htarget, hstart, hne, hnames, hqualified, hresolve⟩ :=
      exists_walk_of_aliasByModule hmodule hsegments hbound
    obtain ⟨hmeans, hkeeps⟩ := hleads i hi start names htarget hne hnames hqualified
    obtain ⟨e, hmembers, hname⟩ := hkeeps.members
    refine ⟨e, ?_, ?_⟩
    · rw [hresolve, hmeans]
      exact hmembers
    · rw [hname, hqualified]
      exact foldl_qualify hstart hne

section Leads

variable (hrecorded : p.Recorded) (hm : p.file? file = some m)
  (hbinds : ∀ i ∈ m.definitions.imports, i.name = none →
    m.BindsOnly i ∧ IsSegment i.boundName)

include hrecorded hm hbinds

/-- A module import that is all that binds its name makes the name mean what it imports. -/
theorem resolve_boundName_of_binds {i : Import} (hi : i ∈ m.definitions.imports) {start : String}
    (htarget : Codebase.importTarget m i = some (start, none)) :
    p.resolve file i.boundName = some (.module start) := by
  have hname : i.name = none := by
    cases hname : i.name with
    | none => rfl
    | some name =>
        obtain ⟨module, -, hmember⟩ := Option.map_eq_some_iff.1 htarget
        rw [hname] at hmember
        exact nomatch hmember
  obtain ⟨honly, hbound⟩ := hbinds i hi hname
  exact Codebase.resolve_boundName hrecorded hm honly hbound htarget

/-- Imports of modules from outside of the project lead to every symbol. -/
theorem importsLeadTo_of_outside
    (houtside : ∀ i ∈ m.definitions.imports, ∀ start,
      Codebase.importTarget m i = some (start, none) → start ≠ "" ∧ p.Outside start) :
    p.ImportsLeadTo file m s := by
  intro i hi start names htarget _ _ _
  obtain ⟨hne, hout⟩ := houtside i hi start htarget
  exact ⟨resolve_boundName_of_binds hrecorded hm hbinds hi htarget,
    Codebase.keepsNames_of_outside hout hne names⟩

/-- Imports of modules lead to the classes of the project's modules, where every package from the
second on is a module and none gives the next segment another meaning. -/
theorem importsLeadTo_of_moduleClass {parts : List String} {className : String} {id : ClassId}
    (h : p.ModuleClass parts className id)
    (hmodules : ∀ package, package <+: parts → 2 ≤ package.length →
      p.hasModule (ofSegments package) = true)
    (hs : s.qualifiedName = ofSegments (parts ++ [className])) : p.ImportsLeadTo file m s := by
  intro i hi start names htarget hne hnames hqualified
  refine ⟨resolve_boundName_of_binds hrecorded hm hbinds hi htarget, ?_⟩
  have hplain : ∀ part ∈ parts ++ [className], '.' ∉ part.toList := by
    intro part hpart
    rcases List.mem_append.1 hpart with hpart | hpart
    · exact (h.segments part hpart).plain
    · exact (List.mem_singleton.1 hpart ▸ h.segment).plain
  -- the names on the way are the last segments of the path, the class the last of them
  have hsplit : parts ++ [className] = segments start ++ names := by
    rw [← segments_ofSegments (by simp) hplain, ← hs, hqualified, segments_below,
      segments_ofSegments hne fun name hname => (hnames name hname).plain]
  obtain ⟨further, last, rfl⟩ := (List.eq_nil_or_concat' names).resolve_left hne
  rw [← List.append_assoc] at hsplit
  obtain ⟨hparts, hlast⟩ := List.append_inj' hsplit rfl
  obtain rfl := (List.cons.inj hlast).1
  have hkeeps := h.keepsNames hrecorded hmodules further (segments_ne_nil start) hparts.symm
  rwa [ofSegments_segments] at hkeeps

end Leads

/-! ## A name that is bound again -/

/-- Whether what a file is said to name a symbol by means the symbol. -/
def AliasesMean (p : Project) : Prop :=
  ∀ file symbol s expression, p.symbols.get? symbol = some s →
    p.visibleAlias? file symbol = some expression →
    ∃ e, p.resolve file expression = some e ∧ p.qualifiedName e = s.qualifiedName

/-- A module import whose name a member import binds again. -/
def boundAgain : List (String × String) :=
  [("lib.py", "import datetime\ndef g(x: datetime.date): pass\n"),
    ("main.py", "import datetime\nfrom datetime import datetime\n")]

/-- The second file is said to name the class by its qualified name, and there this is a member of
another class. -/
theorem not_resolve_visibleAlias :
    ((ofSources .default boundAgain).symbols.find? "datetime.date").map
      ((ofSources .default boundAgain).visibleAlias? ⟨1⟩) = some (some "datetime.date") ∧
    (ofSources .default boundAgain).resolve ⟨1⟩ "datetime.date" =
      some (.external "datetime.datetime.date") ∧
    ¬ (ofSources .default boundAgain).AliasesMean := by
  have hnamed : ((ofSources .default boundAgain).symbols.find? "datetime.date").map
      ((ofSources .default boundAgain).visibleAlias? ⟨1⟩) = some (some "datetime.date") := by
    decide +kernel
  have hmeans : (ofSources .default boundAgain).resolve ⟨1⟩ "datetime.date" =
      some (.external "datetime.datetime.date") := by decide +kernel
  refine ⟨hnamed, hmeans, ?_⟩
  intro hright
  obtain ⟨symbol, hsymbol, hvisible⟩ := Option.map_eq_some_iff.1 hnamed
  obtain ⟨s, hs, hname⟩ := SymbolTable.exists_of_find? hsymbol
  obtain ⟨e, he, hsame⟩ := hright ⟨1⟩ symbol s "datetime.date" hs hvisible
  obtain rfl := Option.some.inj (hmeans.symm.trans he)
  rw [hname] at hsame
  exact absurd hsame (by decide)

end Project

end CallFill
