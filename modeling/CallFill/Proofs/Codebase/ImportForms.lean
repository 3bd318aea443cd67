import CallFill.Proofs.Codebase.FileOrder

/-!
# Forms of import

A class at the top level of a module can be named in another file after four forms of import: a
member import (`from M import C`), a module import with a name of its own (`import M as a`), a
member import of the module from its package (`from P import m`), and a plain import of the whole
path (`import M`). As long as no package on the way gives the next segment another meaning, the
first three lead to the class, whatever files the packages have.

The plain import binds the first package and walks down from there, one member after the other. It
leads to the class exactly if every package from the second on is a module of the codebase
(`Codebase.resolve_path_iff`): what a package without a file of its own is asked for, and that is no
module, is taken for something from outside, although a module of the codebase lies below it
(`Project.resolve_below_bare_package`).
-/

namespace CallFill

open Dotted

namespace ModuleName

/-- A reference without leading dots is the module itself, wherever it stands. -/
theorem absolute_of_first {reference : String} (h : first reference ≠ "") (current : String)
    (isPackage : Bool) : absolute current isPackage reference = some reference := by
  rw [absolute, if_neg (ne_empty_of_first h), takeWhile_of_first h]

theorem absolute_ofSegments {parts : List String} (hne : parts ≠ [])
    (hsegments : ∀ s ∈ parts, IsSegment s) (current : String) (isPackage : Bool) :
    absolute current isPackage (ofSegments parts) = some (ofSegments parts) := by
  obtain ⟨s, rest, rfl⟩ := List.exists_cons_of_ne_nil hne
  have hs := hsegments s List.mem_cons_self
  exact absolute_of_first (first_ofSegments_ne_empty hs.ne_empty hs.plain rest) current isPackage

end ModuleName

/-- The import is all that binds its name in the module. -/
structure SourceModule.BindsOnly (m : SourceModule) (i : Import) : Prop where
  mem : i ∈ m.definitions.imports
  imports : ∀ j ∈ m.definitions.imports, j.boundName = i.boundName → j = i
  classes : ∀ d ∈ m.definitions.classes, d.name ≠ i.boundName
  functions : ∀ d ∈ m.definitions.functions, d.name ≠ i.boundName
  assignments : ∀ d ∈ m.definitions.assignments, d.name ≠ i.boundName

namespace Codebase

variable {b : Codebase} {file : FileId} {m : SourceModule} {i : Import} {parts : List String}
  {className : String} {id : ClassId}

/-! ## Names that an import binds -/

/-- Where no definition of a file passes a test, no entry of the file does. -/
theorem lastIndex?_eq_none {ε δ : Type} {entries : List ε} {fileOf : ε → FileId}
    {definition : ε → δ} {definitions : List δ}
    (h : (entries.filter fun e => fileOf e = file).map definition = definitions) (test : δ → Bool)
    (hnone : ∀ d ∈ definitions, test d = false) :
    lastIndex? entries (fun e => fileOf e = file && test (definition e)) = none := by
  have hrel := rel_lastIndex? h test
  have hfind : definitions.reverse.find? test = none := by
    refine List.find?_eq_none.2 fun d hd hpasses => ?_
    rw [hnone d (List.mem_reverse.1 hd)] at hpasses
    exact Bool.noConfusion hpasses
  rw [hfind] at hrel
  cases hlast : lastIndex? entries fun e => fileOf e = file && test (definition e) with
  | none => rfl
  | some i =>
      rw [hlast] at hrel
      exact nomatch hrel

/-- What nothing else in a file declares is declared by the import that binds it. -/
theorem declared?_of_bindsOnly (hrecorded : b.Recorded) (hm : b.file? file = some m)
    (h : m.BindsOnly i) : b.declared? file i.boundName = some (.imported i) := by
  have hclass := lastIndex?_eq_none (hrecorded.classes.of_file file m hm)
    (fun d => d.name = i.boundName) fun d hd => decide_eq_false (h.classes d hd)
  have hfunction := lastIndex?_eq_none (hrecorded.functions.of_file file m hm)
    (fun d => d.name = i.boundName) fun d hd => decide_eq_false (h.functions d hd)
  have hassignment := lastIndex?_eq_none (hrecorded.assignments.of_file file m hm)
    (fun d => d.name = i.boundName) fun d hd => decide_eq_false (h.assignments d hd)
  have himport : m.definitions.imports.reverse.find? (fun j => j.boundName = i.boundName) =
      some i := by
    cases hfind : m.definitions.imports.reverse.find? fun j => j.boundName = i.boundName with
    | none =>
        have hfails := List.find?_eq_none.1 hfind i (List.mem_reverse.2 h.mem)
        exact absurd (decide_eq_true rfl) hfails
    | some j =>
        have hj := List.mem_reverse.1 (List.mem_of_find?_eq_some hfind)
        have hname := List.find?_some hfind
        rw [h.imports j hj (of_decide_eq_true hname)]
  rw [declared?, classAtPath?, hclass, hfunction, hassignment, hm, Option.bind_some, himport]
  split <;> rfl

theorem segmentsOf_ofSegments (hne : parts ≠ []) (hsegments : ∀ s ∈ parts, IsSegment s) :
    segmentsOf (ofSegments parts) = parts := by
  rw [segmentsOf, segments_ofSegments hne fun s hs => (hsegments s hs).plain]
  exact (List.map_congr_left fun s hs => (hsegments s hs).trimmed_eq).trans (List.map_id parts)

/-- A name that starts with what an import binds is looked up in what the import names. -/
theorem resolve_of_bindsOnly (hrecorded : b.Recorded) (hm : b.file? file = some m)
    (h : m.BindsOnly i) {e : Entity} {rest : List String}
    (himport : b.importedEntity (b.entityIn memberFileBound) m i = some e)
    (hsegments : ∀ s ∈ i.boundName :: rest, IsSegment s) :
    b.resolve file (ofSegments (i.boundName :: rest)) = b.members e rest := by
  have hfound : b.entityIn fileBound file i.boundName = some e := by
    rw [fileBound, entityIn, declared?_of_bindsOnly hrecorded hm h]
    dsimp only
    rw [hm, Option.bind_some]
    exact himport
  have hne := (hsegments i.boundName List.mem_cons_self).ne_empty
  rw [resolve, segmentsOf_ofSegments (List.cons_ne_nil _ _) hsegments]
  dsimp only
  rw [if_neg hne, hfound]
  rfl

/-! ## Paths of packages -/

/-- No package on the way to a module gives the next segment another meaning than the module
below. -/
def Leads (b : Codebase) (parts : List String) : Prop :=
  ∀ package next, package ≠ [] → package ++ [next] <+: parts →
    ∀ home e, b.moduleFile? (ofSegments package) = some home →
      b.entityIn memberFileBound home next = some e → e = .module (ofSegments (package ++ [next]))

/-- No package on the way to a module declares the next segment. -/
def Unbound (b : Codebase) (parts : List String) : Prop :=
  ∀ package next, package ≠ [] → package ++ [next] <+: parts →
    ∀ home, b.moduleFile? (ofSegments package) = some home → b.declared? home next = none

theorem Unbound.leads (h : b.Unbound parts) : b.Leads parts := by
  intro package next hne hbegins home e hhome he
  rw [memberFileBound, entityIn, h package next hne hbegins home hhome] at he
  cases he

/-- Below what is outside of the codebase there is no class of it. -/
theorem members_external (outer : String) (names : List String) :
    b.members (.external outer) names ≠ some (.classDef id) := by
  induction names generalizing outer with
  | nil => exact nofun
  | cons name names ih => exact ih (qualify outer name)

/-- A class at the top level of a module, with the path of the module. -/
structure ModuleClass (b : Codebase) (parts : List String) (className : String) (id : ClassId) :
    Prop where
  ne_nil : parts ≠ []
  segments : ∀ s ∈ parts, IsSegment s
  segment : IsSegment className
  declared : ∃ home, b.moduleFile? (ofSegments parts) = some home ∧
    b.declared? home className = some (.classDef id)
  leads : b.Leads parts

namespace ModuleClass

variable (h : b.ModuleClass parts className id)

include h

/-- The class is a member of its module. -/
theorem memberOfModule_eq :
    b.memberOfModule (b.entityIn memberFileBound) (ofSegments parts) className =
      some (.classDef id) := by
  obtain ⟨home, hhome, hdeclared⟩ := h.declared
  have hfound : b.entityIn memberFileBound home className = some (.classDef id) := by
    rw [memberFileBound, entityIn, hdeclared]
  rw [memberOfModule, hhome]
  dsimp only
  rw [hfound]
  rfl

theorem members_class :
    b.members (.module (ofSegments parts)) [className] = some (.classDef id) := by
  rw [members, List.foldlM_cons]
  show (b.memberOfModule _ _ _).bind _ = _
  rw [h.memberOfModule_eq]
  rfl

theorem hasModule : b.hasModule (ofSegments parts) = true := by
  obtain ⟨home, hhome, -⟩ := h.declared
  rw [Codebase.hasModule, hhome]
  rfl

/-- The next module on the way, if it is one, is a member of the package before it. -/
theorem memberOfModule_package {package : List String} {next : String} (hne : package ≠ [])
    (hbegins : package ++ [next] <+: parts)
    (hmodule : b.hasModule (ofSegments (package ++ [next])) = true) :
    b.memberOfModule (b.entityIn memberFileBound) (ofSegments package) next =
      some (.module (ofSegments (package ++ [next]))) := by
  have hsegments : ∀ s ∈ package, IsSegment s := fun s hs =>
    h.segments s (hbegins.mem (List.mem_append_left _ hs))
  rw [memberOfModule, qualify_ofSegments hne hsegments, if_pos hmodule]
  cases hhome : b.moduleFile? (ofSegments package) with
  | none => rw [if_pos hmodule]
  | some home =>
      dsimp only
      cases hfound : b.entityIn memberFileBound home next with
      | none => rfl
      | some e =>
          rw [h.leads package next hne hbegins home e hhome hfound]
          rfl

/-- Where every package from the second on is a module, a walk down from a package passes the module
of the class. -/
theorem members_eq
    (hmodules : ∀ package, package <+: parts → 2 ≤ package.length →
      b.hasModule (ofSegments package) = true)
    {package : List String} (further names : List String) (hne : package ≠ [])
    (hsplit : package ++ further = parts) :
    b.members (.module (ofSegments package)) (further ++ names) =
      b.members (.module (ofSegments parts)) names := by
  induction further generalizing package with
  | nil => rw [← hsplit, List.append_nil, List.nil_append]
  | cons next further ih =>
      have hsplit' : (package ++ [next]) ++ further = parts := by
        rw [List.append_assoc]
        exact hsplit
      have hbegins : package ++ [next] <+: parts := ⟨further, hsplit'⟩
      have hlength : 2 ≤ (package ++ [next]).length := by
        have hpositive := List.length_pos_iff.2 hne
        rw [List.length_append, List.length_singleton]
        omega
      have hnext := h.memberOfModule_package hne hbegins (hmodules _ hbegins hlength)
      rw [← ih (by simp) hsplit', List.cons_append, members, List.foldlM_cons]
      show (b.memberOfModule _ _ _).bind _ = _
      rw [hnext]
      rfl

/-- A walk down from a package that reaches the class passes modules only, where no package on the
way declares the next segment. -/
theorem hasModule_of_members (hunbound : b.Unbound parts) {package : List String}
    (further : List String) (hne : package ≠ []) (hsplit : package ++ further = parts)
    (hreaches : b.members (.module (ofSegments package)) (further ++ [className]) =
      some (.classDef id)) :
    ∀ p, p <+: parts → package.length < p.length → b.hasModule (ofSegments p) = true := by
  intro p hp hlonger
  induction further generalizing package with
  | nil =>
      have hle := hp.length_le
      rw [← hsplit, List.append_nil] at hle
      omega
  | cons next further ih =>
      have hsplit' : (package ++ [next]) ++ further = parts := by
        rw [List.append_assoc]
        exact hsplit
      have hbegins : package ++ [next] <+: parts := ⟨further, hsplit'⟩
      rw [List.cons_append, members, List.foldlM_cons] at hreaches
      change (b.memberOfModule _ _ _).bind _ = _ at hreaches
      -- if the next package were no module, the segment would be looked up in the file of this one,
      -- which binds nothing, or outside; neither leads to a class
      cases hmodule : b.hasModule (ofSegments (package ++ [next])) with
      | true =>
          rw [h.memberOfModule_package hne hbegins hmodule] at hreaches
          by_cases hlength : p.length = package.length + 1
          · have hsame : p = package ++ [next] := by
              rw [List.prefix_iff_eq_take.1 hp, List.prefix_iff_eq_take.1 hbegins, hlength]
              simp
            rw [hsame]
            exact hmodule
          · refine ih (by simp) hsplit' hreaches ?_
            rw [List.length_append, List.length_singleton]
            omega
      | false =>
          have hsegments : ∀ s ∈ package, IsSegment s := fun s hs =>
            h.segments s (hbegins.mem (List.mem_append_left _ hs))
          rw [memberOfModule, qualify_ofSegments hne hsegments, hmodule] at hreaches
          cases hhome : b.moduleFile? (ofSegments package) with
          | none =>
              rw [hhome] at hreaches
              exact absurd hreaches (members_external _ _)
          | some home =>
              have hnothing : b.entityIn memberFileBound home next = none := by
                rw [memberFileBound, entityIn, hunbound package next hne hbegins home hhome]
              rw [hhome] at hreaches
              dsimp only at hreaches
              rw [hnothing] at hreaches
              cases hreaches

end ModuleClass

/-! ## The forms of import -/

theorem forall_pair {s s' : String} (hs : IsSegment s) (hs' : IsSegment s') :
    ∀ t ∈ [s, s'], IsSegment t := by
  intro t ht
  rcases List.mem_cons.1 ht with rfl | ht
  · exact hs
  · exact List.mem_singleton.1 ht ▸ hs'

section Forms

variable (hrecorded : b.Recorded) (h : b.ModuleClass parts className id)
  (hm : b.file? file = some m) (hbinds : m.BindsOnly i) (hbound : IsSegment i.boundName)

include hrecorded h hm hbinds hbound

/-- After a member import, the name it binds is the class. -/
theorem resolve_member (hmodule : i.module = ofSegments parts) (hname : i.name = some className) :
    b.resolve file (ofSegments [i.boundName]) = some (.classDef id) := by
  have himport : b.importedEntity (b.entityIn memberFileBound) m i = some (.classDef id) := by
    rw [importedEntity, importTarget, hmodule, hname,
      ModuleName.absolute_ofSegments h.ne_nil h.segments]
    exact h.memberOfModule_eq
  exact resolve_of_bindsOnly hrecorded hm hbinds himport fun s hs =>
    List.mem_singleton.1 hs ▸ hbound

/-- After an import of the module under a name of its own, the class is a member of this name. -/
theorem resolve_module (hmodule : i.module = ofSegments parts) (hname : i.name = none)
    (hasName : i.asName.isSome) :
    b.resolve file (ofSegments [i.boundName, className]) = some (.classDef id) := by
  obtain ⟨own, hown⟩ := Option.isSome_iff_exists.1 hasName
  have himport : b.importedEntity (b.entityIn memberFileBound) m i =
      some (.module (ofSegments parts)) := by
    rw [importedEntity, importTarget, hmodule, hname, hown,
      ModuleName.absolute_ofSegments h.ne_nil h.segments]
    rfl
  rw [resolve_of_bindsOnly hrecorded hm hbinds himport (forall_pair hbound h.segment)]
  exact h.members_class

/-- After an import of the module from its package, the class is a member of the name it binds. -/
theorem resolve_submodule {package : List String} {last : String} (hne : package ≠ [])
    (hsplit : package ++ [last] = parts) (hmodule : i.module = ofSegments package)
    (hname : i.name = some last) :
    b.resolve file (ofSegments [i.boundName, className]) = some (.classDef id) := by
  have hsegments : ∀ s ∈ package, IsSegment s := fun s hs =>
    h.segments s (hsplit ▸ List.mem_append_left _ hs)
  have hmember := h.memberOfModule_package hne ⟨[], by rw [List.append_nil, hsplit]⟩
    (hsplit ▸ h.hasModule)
  have himport : b.importedEntity (b.entityIn memberFileBound) m i =
      some (.module (ofSegments parts)) := by
    rw [importedEntity, importTarget, hmodule, hname,
      ModuleName.absolute_ofSegments hne hsegments, ← hsplit]
    exact hmember
  rw [resolve_of_bindsOnly hrecorded hm hbinds himport (forall_pair hbound h.segment)]
  exact h.members_class

end Forms

section Path

variable (hrecorded : b.Recorded) (h : b.ModuleClass parts className id)
  (hm : b.file? file = some m) (hbinds : m.BindsOnly i) (hmodule : i.module = ofSegments parts)
  (hname : i.name = none) (hasName : i.asName = none)

include hrecorded h hm hbinds hmodule hname hasName

/-- After a plain import, the path of the module is walked down from its first package. -/
theorem resolve_eq_members :
    ∃ top further, top :: further = parts ∧ b.resolve file (ofSegments (parts ++ [className])) =
      b.members (.module (ofSegments [top])) (further ++ [className]) := by
  obtain ⟨top, further, hsplit⟩ := List.exists_cons_of_ne_nil h.ne_nil
  have htop := h.segments top (hsplit ▸ List.mem_cons_self)
  have hfirst : Dotted.first (ofSegments parts) = top := by
    rw [hsplit]
    exact first_ofSegments htop.plain further
  have hbound : i.boundName = top := by
    rw [Import.boundName, hasName, hname, hmodule]
    exact hfirst
  have himport : b.importedEntity (b.entityIn memberFileBound) m i =
      some (.module (ofSegments [top])) := by
    rw [importedEntity, importTarget, hmodule, hname, hasName,
      ModuleName.absolute_ofSegments h.ne_nil h.segments, ofSegments_singleton]
    exact congrArg (fun s => some (Entity.module s)) hfirst
  refine ⟨top, further, hsplit.symm, ?_⟩
  have hsegments : ∀ s ∈ i.boundName :: (further ++ [className]), IsSegment s := by
    rw [hbound, ← List.cons_append, ← hsplit]
    intro s hs
    rcases List.mem_append.1 hs with hs | hs
    · exact h.segments s hs
    · exact List.mem_singleton.1 hs ▸ h.segment
  have hresolve := resolve_of_bindsOnly hrecorded hm hbinds himport hsegments
  rw [hbound, ← List.cons_append, ← hsplit] at hresolve
  exact hresolve

/-- After a plain import, the whole path leads to the class, where every package from the second on
is a module. -/
theorem resolve_path
    (hmodules : ∀ package, package <+: parts → 2 ≤ package.length →
      b.hasModule (ofSegments package) = true) :
    b.resolve file (ofSegments (parts ++ [className])) = some (.classDef id) := by
  obtain ⟨top, further, hsplit, hresolve⟩ :=
    resolve_eq_members hrecorded h hm hbinds hmodule hname hasName
  rw [hresolve, h.members_eq hmodules further [className] (List.cons_ne_nil top []) hsplit]
  exact h.members_class

/-- After a plain import, the whole path leads to the class exactly if every package from the second
on is a module, where no package on the way declares the next segment. -/
theorem resolve_path_iff (hunbound : b.Unbound parts) :
    b.resolve file (ofSegments (parts ++ [className])) = some (.classDef id) ↔
      ∀ package, package <+: parts → 2 ≤ package.length →
        b.hasModule (ofSegments package) = true := by
  constructor
  · intro hclass
    obtain ⟨top, further, hsplit, hresolve⟩ :=
      resolve_eq_members hrecorded h hm hbinds hmodule hname hasName
    rw [hresolve] at hclass
    exact h.hasModule_of_members hunbound further (List.cons_ne_nil top []) hsplit hclass
  · exact resolve_path hrecorded h hm hbinds hmodule hname hasName

end Path

/-- The forms of import after which a class of a module can be named, and the name in segments. -/
inductive ImportForm (parts : List String) (className : String) : Import → List String → Prop where
  | member {i : Import} (hmodule : i.module = ofSegments parts) (hname : i.name = some className) :
      ImportForm parts className i [i.boundName]
  | module {i : Import} (hmodule : i.module = ofSegments parts) (hname : i.name = none)
      (hasName : i.asName.isSome) : ImportForm parts className i [i.boundName, className]
  | submodule {i : Import} {package : List String} {last : String} (hne : package ≠ [])
      (hsplit : package ++ [last] = parts) (hmodule : i.module = ofSegments package)
      (hname : i.name = some last) : ImportForm parts className i [i.boundName, className]
  | path {i : Import} (hmodule : i.module = ofSegments parts) (hname : i.name = none)
      (hasName : i.asName = none) : ImportForm parts className i (parts ++ [className])

/-- All forms of import lead to the class, where every package from the second on is a module. -/
theorem resolve_of_importForm (hrecorded : b.Recorded) (h : b.ModuleClass parts className id)
    (hmodules : ∀ package, package <+: parts → 2 ≤ package.length →
      b.hasModule (ofSegments package) = true)
    {expression : List String} (hform : ImportForm parts className i expression)
    (hm : b.file? file = some m) (hbinds : m.BindsOnly i) (hbound : IsSegment i.boundName) :
    b.resolve file (ofSegments expression) = some (.classDef id) := by
  cases hform with
  | member hmodule hname => exact resolve_member hrecorded h hm hbinds hbound hmodule hname
  | module hmodule hname hasName =>
      exact resolve_module hrecorded h hm hbinds hbound hmodule hname hasName
  | submodule hne hsplit hmodule hname =>
      exact resolve_submodule hrecorded h hm hbinds hbound hne hsplit hmodule hname
  | path hmodule hname hasName =>
      exact resolve_path hrecorded h hm hbinds hmodule hname hasName hmodules

/-- A class at the top level of a file is what its name is declared as there. -/
theorem exists_declared? (hrecorded : b.Recorded) (hm : b.file? file = some m) {d : ClassDef}
    (hd : d ∈ m.definitions.classes) (hplain : '.' ∉ d.name.toList) :
    ∃ id c, b.declared? file d.name = some (.classDef id) ∧ b.class? id = some c ∧
      c.file = file ∧ c.definition.name = d.name := by
  have hrel := rel_lastIndex? (hrecorded.classes.of_file file m hm) fun d' => d'.name = d.name
  cases hfind : m.definitions.classes.reverse.find? fun d' => decide (d'.name = d.name) with
  | none =>
      have hfails := List.find?_eq_none.1 hfind d (List.mem_reverse.2 hd)
      exact absurd (decide_eq_true rfl) hfails
  | some d' =>
      rw [hfind] at hrel
      cases hlast : lastIndex? b.classes fun c => c.file = file && c.definition.name = d.name with
      | none =>
          rw [hlast] at hrel
          exact nomatch hrel
      | some index =>
          rw [hlast] at hrel
          obtain ⟨c, hc, hfile, hdefinition⟩ := Option.rel_some_some.1 hrel
          have hname := List.find?_some hfind
          refine ⟨⟨index⟩, c, ?_, hc, hfile, hdefinition ▸ of_decide_eq_true hname⟩
          have hdot : d.name.toList.contains '.' = false := by simpa using hplain
          rw [declared?, hdot, classAtPath?, hlast]
          rfl

end Codebase

namespace Project

open Codebase

variable {config : Config} {modules : List SourceModule} {read : Source.TreeReader}
  {parts : List String}

/-- In a project of any modules, all forms of import lead to one and the same class: the one that
the module defines at its top level, where every package from the second on is a module and none
gives the next segment another meaning. -/
theorem importForms_agree {home : FileId} {m : SourceModule} {d : ClassDef} (hne : parts ≠ [])
    (hsegments : ∀ s ∈ parts, IsSegment s) (hsegment : IsSegment d.name)
    (hhome : (ofCodebase (ofModules config modules read)).moduleFile? (ofSegments parts) =
      some home)
    (hm : (ofCodebase (ofModules config modules read)).file? home = some m)
    (hd : d ∈ m.definitions.classes)
    (hleads : (ofCodebase (ofModules config modules read)).Leads parts)
    (hmodules : ∀ package, package <+: parts → 2 ≤ package.length →
      (ofCodebase (ofModules config modules read)).hasModule (ofSegments package) = true) :
    ∃ id c, (ofCodebase (ofModules config modules read)).class? id = some c ∧ c.file = home ∧
      c.definition.name = d.name ∧
      ∀ file m' i expression, (ofCodebase (ofModules config modules read)).file? file = some m' →
        m'.BindsOnly i → IsSegment i.boundName → ImportForm parts d.name i expression →
        (ofCodebase (ofModules config modules read)).resolve file (ofSegments expression) =
          some (.classDef id) := by
  have hrecorded := recorded_ofCodebase (recorded_ofModules config modules read)
  obtain ⟨id, c, hdeclared, hc, hfile, hname⟩ := exists_declared? hrecorded hm hd hsegment.plain
  refine ⟨id, c, hc, hfile, hname, fun file m' i expression hm' hbinds hbound hform => ?_⟩
  exact resolve_of_importForm hrecorded
    ⟨hne, hsegments, hsegment, ⟨home, hhome, hdeclared⟩, hleads⟩ hmodules hform hm' hbinds hbound

/-! ## A package without a file -/

/-- A class in a module whose packages have no files of their own, imported with its module and
imported from it. -/
def barePackages : List (String × String) :=
  [("pkg/sub/ids.py", "class User: pass\n"), ("whole.py", "import pkg.sub.ids\n"),
    ("member.py", "from pkg.sub.ids import User\n")]

/-- The path through the second package leads outside, although its module is there and the class is
found by importing it as a member. -/
theorem resolve_below_bare_package :
    (ofSources .default barePackages).moduleFile? "pkg.sub.ids" = some ⟨0⟩ ∧
    (ofSources .default barePackages).resolve ⟨1⟩ "pkg.sub.ids.User" =
      some (.external "pkg.sub.ids.User") ∧
    (ofSources .default barePackages).resolve ⟨2⟩ "User" = some (.classDef ⟨0⟩) := by
  decide +kernel

end Project

end CallFill
