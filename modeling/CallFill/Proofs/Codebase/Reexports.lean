import Mathlib.Data.List.Chain
import CallFill.Proofs.Codebase.VisibleAlias

/-!
# Names that are imported on

A module can pass a name that it imports on to the modules that import it, and these to others
again. The chain of member imports is followed file by file: a name at its start means what the name
at its end means, or else the last submodule on the way that is called like the name there
(`Codebase.entityIn_chain`).

A name is looked up in a bounded number of files, so a chain leads to the class at its end exactly
if it has at most eight imports (`Codebase.resolve_chain_iff`, `Project.resolve_reexported_iff`),
and at most seven from a module that is asked for the name (`Codebase.member_chain_iff`). At the
ninth one a class becomes an unknown name (`Project.resolve_ninth_import`).

Imports in a circle are cut wherever they are entered. All that is found is a submodule on the way
or a builtin (`Codebase.resolve_circle`).
-/

namespace CallFill

open Dotted

/-- A name in a file. -/
structure LocalName where
  file : FileId
  name : String

namespace Codebase

variable {b : Codebase} {here next last : LocalName} {places : List LocalName} {id : ClassId}
  {levels : Nat} {e : Entity}

/-- What a file declares a name as is a member import, of a name of another file. -/
def PassesOn (b : Codebase) (here next : LocalName) : Prop :=
  ∃ m i module, b.file? here.file = some m ∧
    b.declared? here.file here.name = some (.imported i) ∧ i.name = some next.name ∧
    ModuleName.absolute m.name m.isPackage i.module = some module ∧
    b.moduleFile? module = some next.file

/-- A name that a member import alone binds in a file, whichever way the module is written. -/
def ImportsAlone (b : Codebase) (here next : LocalName) : Prop :=
  ∃ m i module, b.file? here.file = some m ∧ m.BindsOnly i ∧ i.boundName = here.name ∧
    i.name = some next.name ∧ ModuleName.absolute m.name m.isPackage i.module = some module ∧
    b.moduleFile? module = some next.file

theorem ImportsAlone.passesOn (hrecorded : b.Recorded) (h : b.ImportsAlone here next) :
    b.PassesOn here next := by
  obtain ⟨m, i, module, hm, hbinds, hbound, hname, hmodule, hnext⟩ := h
  refine ⟨m, i, module, hm, ?_, hname, hmodule, hnext⟩
  rw [← hbound]
  exact declared?_of_bindsOnly hrecorded hm hbinds

/-- The submodule that is called like a name, below the module of the file. -/
def submodule? (b : Codebase) (here : LocalName) : Option Entity :=
  (b.file? here.file).bind fun m =>
    if b.hasModule (qualify m.name here.name) then some (.module (qualify m.name here.name))
    else none

theorem submodule?_ne_class (here : LocalName) : b.submodule? here ≠ some (.classDef id) := by
  intro hclass
  obtain ⟨m, -, hm⟩ := Option.bind_eq_some_iff.1 hclass
  split at hm <;> cases hm

theorem builtinEntity_ne_class (name : String) : b.builtinEntity name ≠ some (.classDef id) := by
  intro hclass
  rw [builtinEntity] at hclass
  split at hclass <;> cases hclass

/-! ## Chains of imports -/

/-- Behind one import a name is looked up where it comes from, in one file less. -/
theorem entityIn_passesOn (h : b.PassesOn here next) :
    b.entityIn (levels + 1) here.file here.name =
      (b.entityIn levels next.file next.name).or (b.submodule? next) := by
  obtain ⟨m, i, module, hm, hdeclared, hname, hmodule, hnext⟩ := h
  obtain ⟨home, hhome, rfl⟩ := name_of_moduleFile? hnext
  have htarget : importTarget m i = some (home.name, some next.name) := by
    rw [importTarget, hmodule, hname]
    rfl
  rw [entityIn, hdeclared]
  dsimp only
  rw [hm, Option.bind_some, importedEntity, htarget]
  dsimp only
  rw [memberOfModule, hnext, submodule?, hhome]
  exact Option.orElse_eq_or

/-- Through a chain of imports a name means what the last name means, or else the last submodule on
the way. -/
theorem entityIn_chain (hchain : (here :: places).IsChain b.PassesOn)
    (hlast : (here :: places).getLast? = some last) :
    b.entityIn (levels + places.length) here.file here.name =
      (b.entityIn levels last.file last.name).or (places.reverse.findSome? b.submodule?) := by
  induction places generalizing here with
  | nil =>
      obtain rfl : here = last := Option.some.inj hlast
      exact Option.or_none.symm
  | cons next places ih =>
      obtain ⟨hpasses, hrest⟩ := List.isChain_cons_cons.1 hchain
      rw [List.getLast?_cons_cons] at hlast
      calc b.entityIn (levels + places.length + 1) here.file here.name
          = (b.entityIn (levels + places.length) next.file next.name).or (b.submodule? next) :=
            entityIn_passesOn hpasses
        _ = ((b.entityIn levels last.file last.name).or
              (places.reverse.findSome? b.submodule?)).or (b.submodule? next) := by
            rw [ih hrest hlast]
        _ = (b.entityIn levels last.file last.name).or
              ((next :: places).reverse.findSome? b.submodule?) := by
            rw [List.reverse_cons, List.findSome?_append, Option.or_assoc,
              List.findSome?_singleton]

/-- A chain that is longer than names are looked up leaves the submodules of its beginning. -/
theorem entityIn_chain_of_le (hchain : (here :: places).IsChain b.PassesOn)
    (hlong : levels ≤ places.length) :
    b.entityIn levels here.file here.name =
      (places.take levels).reverse.findSome? b.submodule? := by
  have hcut : (here :: places.take levels).IsChain b.PassesOn := by
    have htake := hchain.take (levels + 1)
    rwa [List.take_succ_cons] at htake
  have hlength : 0 + (places.take levels).length = levels := by
    rw [List.length_take]
    omega
  have hlast := List.getLast?_eq_some_getLast (List.cons_ne_nil here (places.take levels))
  have hnothing : b.entityIn (0 + (places.take levels).length) here.file here.name = _ :=
    entityIn_chain hcut hlast
  rwa [hlength, entityIn, Option.none_or] at hnothing

/-- A chain of imports leads to the class at its end exactly if it is shorter than names are looked
up. -/
theorem entityIn_chain_iff (hchain : (here :: places).IsChain b.PassesOn)
    (hlast : (here :: places).getLast? = some last)
    (hclass : b.declared? last.file last.name = some (.classDef id)) :
    b.entityIn levels here.file here.name = some (.classDef id) ↔ places.length < levels := by
  constructor
  · intro hfound
    by_contra hlong
    rw [entityIn_chain_of_le hchain (by omega)] at hfound
    obtain ⟨place, -, hplace⟩ := List.exists_of_findSome?_eq_some hfound
    exact submodule?_ne_class place hplace
  · intro hshort
    obtain ⟨further, rfl⟩ := Nat.exists_eq_add_of_lt hshort
    have hend : b.entityIn (further + 1) last.file last.name = some (.classDef id) := by
      rw [entityIn, hclass]
    have hfollowed : b.entityIn (further + 1 + places.length) here.file here.name = _ :=
      entityIn_chain hchain hlast
    rw [hend, Option.some_or] at hfollowed
    rwa [show places.length + further + 1 = further + 1 + places.length by omega]

/-- A name without dots is looked up in the file, and then among the builtins. -/
theorem resolve_segment {file : FileId} {name : String} (hname : IsSegment name) :
    b.resolve file name = (b.entityIn fileBound file name).or (b.builtinEntity name) := by
  have hsegments : segmentsOf name = [name] := by
    have hsingle := segmentsOf_ofSegments (List.cons_ne_nil name [])
      fun s hs => List.mem_singleton.1 hs ▸ hname
    rwa [ofSegments_singleton] at hsingle
  rw [resolve, hsegments]
  dsimp only
  have hor : (b.entityIn fileBound file name <|> b.builtinEntity name) =
      (b.entityIn fileBound file name).or (b.builtinEntity name) := Option.orElse_eq_or
  rw [if_neg hname.ne_empty, hor]
  cases (b.entityIn fileBound file name).or (b.builtinEntity name) with
  | none => rfl
  | some e => rfl

section Class

variable (hchain : (here :: places).IsChain b.PassesOn)
  (hlast : (here :: places).getLast? = some last)
  (hclass : b.declared? last.file last.name = some (.classDef id))

include hchain hlast hclass

/-- **How far imports are followed.** A name that is passed on through a chain of imports means the
class at the end of the chain exactly if there are fewer imports than files are looked in. -/
theorem resolve_chain_iff (hname : IsSegment here.name) :
    b.resolve here.file here.name = some (.classDef id) ↔ places.length < fileBound := by
  rw [resolve_segment hname, ← entityIn_chain_iff hchain hlast hclass, Option.or_eq_some_iff]
  constructor
  · rintro (hfound | ⟨-, hbuiltin⟩)
    · exact hfound
    · exact absurd hbuiltin (builtinEntity_ne_class here.name)
  · exact .inl

/-- As a member of the module that passes it on, the name means the class exactly if there are fewer
imports than files are looked in for members. -/
theorem member_chain_iff {module : String} (hmodule : b.moduleFile? module = some here.file) :
    b.member (.module module) here.name = some (.classDef id) ↔
      places.length < memberFileBound := by
  obtain ⟨home, hhome, rfl⟩ := name_of_moduleFile? hmodule
  have hmember : b.member (.module home.name) here.name =
      (b.entityIn memberFileBound here.file here.name).or (b.submodule? here) := by
    rw [member, memberOfModule, hmodule, submodule?, hhome]
    exact Option.orElse_eq_or
  rw [hmember, ← entityIn_chain_iff hchain hlast hclass, Option.or_eq_some_iff]
  constructor
  · rintro (hfound | ⟨-, hsubmodule⟩)
    · exact hfound
    · exact absurd hsubmodule (submodule?_ne_class here)
  · exact .inl

end Class

/-! ## Circles -/

/-- Every one of some names comes from another of them. -/
def Circular (b : Codebase) (places : List LocalName) : Prop :=
  ∀ here ∈ places, ∃ next ∈ places, b.PassesOn here next

/-- A chain of imports that ends where it began is a circle. -/
theorem circular_of_ring (hchain : (here :: places).IsChain b.PassesOn)
    (hlast : places.getLast? = some here) : b.Circular places := by
  intro place hplace
  obtain ⟨before, behind, rfl⟩ := List.append_of_mem hplace
  cases behind with
  | cons next behind =>
      refine ⟨next, by simp, ?_⟩
      have hpair := (List.isChain_append.1 (List.isChain_of_isChain_cons hchain)).2.1
      exact List.rel_of_isChain_cons_cons hpair
  | nil =>
      -- the last of the names is the first, and goes on with the one behind it
      obtain rfl : place = here := by
        rw [List.getLast?_concat] at hlast
        exact Option.some.inj hlast
      cases before with
      | nil => exact ⟨place, by simp, List.rel_of_isChain_cons_cons hchain⟩
      | cons next before => exact ⟨next, by simp, List.rel_of_isChain_cons_cons hchain⟩

/-- However far a circle is followed, all that is found is a submodule on the way. -/
theorem entityIn_circle (hcircle : b.Circular places) (hhere : here ∈ places)
    (hfound : b.entityIn levels here.file here.name = some e) :
    ∃ place ∈ places, b.submodule? place = some e := by
  induction levels generalizing here with
  | zero => cases hfound
  | succ levels ih =>
      obtain ⟨next, hnext, hpasses⟩ := hcircle here hhere
      rw [entityIn_passesOn hpasses, Option.or_eq_some_iff] at hfound
      rcases hfound with hfurther | ⟨-, hsubmodule⟩
      · exact ih hnext hfurther
      · exact ⟨next, hnext, hsubmodule⟩

/-- **Imports in a circle lead nowhere**: a name that is passed on in a circle means a submodule on
the way or a builtin, if it means anything. -/
theorem resolve_circle (hcircle : b.Circular places) (hhere : here ∈ places)
    (hname : IsSegment here.name) (hfound : b.resolve here.file here.name = some e) :
    (∃ place ∈ places, b.submodule? place = some e) ∨ b.builtinEntity here.name = some e := by
  rw [resolve_segment hname, Option.or_eq_some_iff] at hfound
  rcases hfound with hentity | ⟨-, hbuiltin⟩
  · exact .inl (entityIn_circle hcircle hhere hentity)
  · exact .inr hbuiltin

end Codebase

namespace Project

open Codebase

/-- In a project of any modules, a name that imports alone pass on from a module with a class of
that name means this class exactly if there are at most eight imports. -/
theorem resolve_reexported_iff {config : Config} {modules : List SourceModule}
    {read : Source.TreeReader} {here last : LocalName} {places : List LocalName}
    {m : SourceModule} {d : ClassDef}
    (hchain : (here :: places).IsChain (ofCodebase (ofModules config modules read)).ImportsAlone)
    (hlast : (here :: places).getLast? = some last)
    (hm : (ofCodebase (ofModules config modules read)).file? last.file = some m)
    (hd : d ∈ m.definitions.classes) (hclass : d.name = last.name)
    (hhere : IsSegment here.name) (hplain : '.' ∉ last.name.toList) :
    ∃ id c, (ofCodebase (ofModules config modules read)).class? id = some c ∧ c.file = last.file ∧
      c.definition.name = last.name ∧
      ((ofCodebase (ofModules config modules read)).resolve here.file here.name =
          some (.classDef id) ↔ places.length ≤ 8) := by
  have hrecorded := recorded_ofCodebase (recorded_ofModules config modules read)
  have hpasses := hchain.imp fun _ _ h => h.passesOn hrecorded
  rw [← hclass] at hplain ⊢
  obtain ⟨id, c, hdeclared, hc, hfile, hname⟩ := exists_declared? hrecorded hm hd hplain
  rw [hclass] at hdeclared
  exact ⟨id, c, hc, hfile, hname,
    (resolve_chain_iff hpasses hlast hdeclared hhere).trans Nat.lt_succ_iff⟩

/-- Nine imports of a class, from ten modules. -/
def tenModules : List (String × String) :=
  [("m0.py", "from m1 import X\n"), ("m1.py", "from m2 import X\n"),
    ("m2.py", "from m3 import X\n"), ("m3.py", "from m4 import X\n"),
    ("m4.py", "from m5 import X\n"), ("m5.py", "from m6 import X\n"),
    ("m6.py", "from m7 import X\n"), ("m7.py", "from m8 import X\n"),
    ("m8.py", "from m9 import X\n"), ("m9.py", "class X: pass\n")]

/-- The second module knows the class, and the first, which imports it from there, does not. -/
theorem resolve_ninth_import :
    (ofSources .default tenModules).resolve ⟨1⟩ "X" = some (.classDef ⟨0⟩) ∧
    (ofSources .default tenModules).resolve ⟨0⟩ "X" = none := by
  decide +kernel

end Project

end CallFill
