import CallFill.Proofs.Codebase.ImportForms

/-!
# Relative references

A reference with leading dots is read from the package that a module lies in
(`ModuleName.InPackage`): the first dot is the package itself, each further dot climbs one level,
and the segments behind the dots lead down again. Only this package counts: a package and the
modules right below it read every reference alike (`ModuleName.absolute_of_inPackage`).

From a package of `n` levels, a reference with `k` dots means the first `n - (k - 1)` levels and
then the segments behind the dots. It means nothing if it climbs above the root, or stops there
(`ModuleName.absolute_dots`). So every module can be referred to from every package, over any
package above both (`ModuleName.absolute_over`), and to import by such a reference is to import by
the whole name (`Codebase.importTarget_relative`).
-/

namespace CallFill

namespace Dotted

/-- One level in the name of a module: a text that is not empty and has no dot. -/
structure IsLevel (s : String) : Prop where
  ne_empty : s ≠ ""
  plain : '.' ∉ s.toList

instance (s : String) : Decidable (IsLevel s) :=
  decidable_of_iff (s ≠ "" ∧ '.' ∉ s.toList) ⟨fun h => ⟨h.1, h.2⟩, fun h => ⟨h.1, h.2⟩⟩

end Dotted

namespace ModuleName

open Dotted

variable {package parts target shared : List String} {current : String} {isPackage : Bool}

/-- The reference with so many dots before the segments. -/
def relative (dots : Nat) (parts : List String) : String :=
  String.ofList (List.replicate dots '.') ++ ofSegments parts

/-- A module lies in a package: it is the package, or it stands right below it. -/
inductive InPackage (package : List String) : String → Bool → Prop where
  | package : InPackage package (ofSegments package) true
  | module {own : String} (hown : IsLevel own) :
      InPackage package (ofSegments (package ++ [own])) false

/-! ## Names and their levels -/

/-- The segments of a module's name are its levels, also for the unnamed module. -/
theorem segments_ofSegments (hparts : ∀ s ∈ parts, IsLevel s) :
    segments (ofSegments parts) = parts := by
  cases parts with
  | nil => rfl
  | cons s rest =>
      have hs := hparts s List.mem_cons_self
      have hfirst := first_ofSegments_ne_empty hs.ne_empty hs.plain rest
      rw [segments, if_neg (ne_empty_of_first hfirst)]
      exact Dotted.segments_ofSegments (List.cons_ne_nil s rest) fun t ht => (hparts t ht).plain

/-- A module's name does not start with a dot. -/
theorem takeWhile_ofSegments (hparts : ∀ s ∈ parts, IsLevel s) :
    (ofSegments parts).toList.takeWhile (· == '.') = [] := by
  cases parts with
  | nil => rfl
  | cons s rest =>
      have hs := hparts s List.mem_cons_self
      exact takeWhile_of_first (first_ofSegments_ne_empty hs.ne_empty hs.plain rest)

theorem toList_relative (dots : Nat) (parts : List String) :
    (relative dots parts).toList = List.replicate dots '.' ++ (ofSegments parts).toList := by
  rw [relative, String.toList_append, String.toList_ofList]

theorem takeWhile_relative (dots : Nat) (hparts : ∀ s ∈ parts, IsLevel s) :
    (relative dots parts).toList.takeWhile (· == '.') = List.replicate dots '.' := by
  have hdots : ∀ c ∈ List.replicate dots '.', (c == '.') = true := fun c hc =>
    beq_iff_eq.2 (List.eq_of_mem_replicate hc)
  rw [toList_relative, List.takeWhile_append_of_pos hdots, takeWhile_ofSegments hparts,
    List.append_nil]

theorem dropWhile_relative (dots : Nat) (hparts : ∀ s ∈ parts, IsLevel s) :
    (relative dots parts).toList.dropWhile (· == '.') = (ofSegments parts).toList := by
  have hsplit : (relative dots parts).toList.takeWhile (· == '.') ++
      (relative dots parts).toList.dropWhile (· == '.') = (relative dots parts).toList :=
    List.takeWhile_append_dropWhile
  rw [takeWhile_relative dots hparts, toList_relative] at hsplit
  rw [toList_relative]
  exact List.append_cancel_left hsplit

/-! ## What a reference means -/

/-- From a package, a reference with one dot more than levels to climb means what is left of the
package and the segments behind the dots. -/
theorem absolute_dots (hpackage : ∀ s ∈ package, IsLevel s) (hparts : ∀ s ∈ parts, IsLevel s)
    (climbs : Nat) :
    absolute (ofSegments package) true (relative (climbs + 1) parts) =
      if climbs ≤ package.length ∧ package.take (package.length - climbs) ++ parts ≠ [] then
        some (ofSegments (package.take (package.length - climbs) ++ parts))
      else none := by
  have hne : relative (climbs + 1) parts ≠ "" := by
    intro hempty
    have hchars := toList_relative (climbs + 1) parts
    rw [hempty, List.replicate_succ] at hchars
    exact nomatch hchars
  rw [absolute, if_neg hne, takeWhile_relative _ hparts, List.replicate_succ]
  dsimp only
  rw [if_pos rfl, List.length_replicate, dropWhile_relative _ hparts, String.ofList_toList,
    segments_ofSegments hpackage, segments_ofSegments hparts]
  by_cases habove : package.length < climbs
  · rw [if_pos habove, if_neg fun h => Nat.not_le_of_lt habove h.1]
  · rw [if_neg habove]
    by_cases hroot : package.take (package.length - climbs) ++ parts = []
    · rw [if_pos (List.isEmpty_iff.2 hroot), if_neg fun h => h.2 hroot]
    · rw [if_neg (mt List.isEmpty_iff.1 hroot), if_pos ⟨Nat.le_of_not_lt habove, hroot⟩]

/-- The package alone decides what a reference in a module means. -/
theorem absolute_of_inPackage (hpackage : ∀ s ∈ package, IsLevel s)
    (h : InPackage package current isPackage) (reference : String) :
    absolute current isPackage reference = absolute (ofSegments package) true reference := by
  cases h with
  | package => rfl
  | @module own hown =>
      have hlevels : ∀ s ∈ package ++ [own], IsLevel s :=
        List.forall_mem_append.2 ⟨hpackage, List.forall_mem_singleton.2 hown⟩
      rw [absolute, absolute, segments_ofSegments hpackage, segments_ofSegments hlevels]
      cases reference.toList.takeWhile (· == '.') with
      | nil => rfl
      | cons _ further =>
          -- the module's own level is the one that its first dot climbs
          have hlength : (package ++ [own]).length = package.length + 1 := List.length_append
          have hleft : (package ++ [own]).take (package.length - further.length) =
              package.take (package.length - further.length) :=
            List.take_append_of_le_length (Nat.sub_le _ _)
          simp only [hlength, hleft, Nat.add_lt_add_iff_right, Nat.add_sub_add_right,
            Bool.false_eq_true, if_false, if_true]

/-- Over a package above both, a reference leads from a package to a module. -/
theorem absolute_over (hpackage : ∀ s ∈ package, IsLevel s) (htarget : ∀ s ∈ target, IsLevel s)
    (hne : target ≠ []) (habove : shared <+: package) (habove' : shared <+: target) :
    absolute (ofSegments package) true
        (relative (package.length - shared.length + 1) (target.drop shared.length)) =
      some (ofSegments target) := by
  have hlength := habove.length_le
  have hleft : package.take (package.length - (package.length - shared.length)) = shared := by
    rw [Nat.sub_sub_self hlength]
    exact (List.prefix_iff_eq_take.1 habove).symm
  have hwhole : shared ++ target.drop shared.length = target :=
    (List.prefix_append_drop habove').symm
  rw [absolute_dots hpackage fun s hs => htarget s (List.mem_of_mem_drop hs), hleft, hwhole]
  exact if_pos ⟨Nat.sub_le _ _, hne⟩

/-- **Relative references.** From a package, a reference with `k` dots means the levels of the
package without the last `k - 1` and then the segments behind the dots, and nothing if there are not
so many levels or nothing is left. A module right below the package reads every reference as the
package does. Over any package above both, a module is reached from the package by one dot more than
there are levels to climb, and the rest of its name. -/
theorem absolute_relative (hpackage : ∀ s ∈ package, IsLevel s) :
    (∀ k parts, 1 ≤ k → (∀ s ∈ parts, IsLevel s) →
      let levels := package.take (package.length - (k - 1)) ++ parts
      absolute (ofSegments package) true (relative k parts) =
        if k - 1 ≤ package.length ∧ levels ≠ [] then some (ofSegments levels) else none) ∧
    (∀ own reference, IsLevel own →
      absolute (ofSegments (package ++ [own])) false reference =
        absolute (ofSegments package) true reference) ∧
    ∀ target shared, target ≠ [] → (∀ s ∈ target, IsLevel s) →
      shared <+: package → shared <+: target →
      absolute (ofSegments package) true
          (relative (package.length - shared.length + 1) (target.drop shared.length)) =
        some (ofSegments target) := by
  refine ⟨fun k parts hk hparts => ?_, fun own reference hown => ?_, ?_⟩
  · obtain ⟨climbs, rfl⟩ := Nat.exists_eq_add_of_le' hk
    exact absolute_dots hpackage hparts climbs
  · exact absolute_of_inPackage hpackage (.module hown) reference
  · intro target shared hne htarget habove habove'
    exact absolute_over hpackage htarget hne habove habove'

/-- From `app.api` and from the module `app.api.views`, three dots stand for the root: a segment is
needed behind them, and a fourth dot is one too many. -/
theorem absolute_relative_root :
    (∀ s ∈ ["app", "api"], IsLevel s) ∧
    absolute "app.api" true "...core" = some "core" ∧
    absolute "app.api" true "..." = none ∧
    absolute "app.api" true "....core" = none ∧
    absolute "app.api.views" false "...core" = absolute "app.api" true "...core" ∧
    absolute "app.api" true "..core.ids" = some "app.core.ids" := by
  have hpackage : ∀ s ∈ ["app", "api"], IsLevel s := by decide
  obtain ⟨hdots, hmodule, hover⟩ := absolute_relative hpackage
  refine ⟨hpackage, ?_, ?_, ?_, ?_, ?_⟩
  · exact hdots 3 ["core"] (by decide) (by decide)
  · exact hdots 3 [] (by decide) (by decide)
  · exact hdots 4 ["core"] (by decide) (by decide)
  · exact hmodule "views" "...core" (by decide)
  · exact hover ["app", "core", "ids"] ["app"] (by decide) (by decide) (by decide) (by decide)

end ModuleName

namespace Codebase

open Dotted ModuleName

variable {package target shared : List String} {m : SourceModule} {i : Import}

/-- An import by a relative reference names what the import by the whole name of the module
names. -/
theorem importTarget_relative (hm : InPackage package m.name m.isPackage)
    (hpackage : ∀ s ∈ package, IsLevel s) (htarget : ∀ s ∈ target, IsLevel s) (hne : target ≠ [])
    (habove : shared <+: package) (habove' : shared <+: target)
    (hmodule : i.module =
      relative (package.length - shared.length + 1) (target.drop shared.length)) :
    importTarget m i = importTarget m { i with module := ofSegments target } := by
  have hrelative : absolute m.name m.isPackage i.module = some (ofSegments target) := by
    rw [hmodule, absolute_of_inPackage hpackage hm]
    exact absolute_over hpackage htarget hne habove habove'
  have hwhole : absolute m.name m.isPackage (ofSegments target) = some (ofSegments target) := by
    obtain ⟨s, rest, rfl⟩ := List.exists_cons_of_ne_nil hne
    have hs := htarget s List.mem_cons_self
    exact absolute_of_first (first_ofSegments_ne_empty hs.ne_empty hs.plain rest) _ _
  rw [importTarget, importTarget, hrelative, hwhole]

end Codebase

end CallFill
