import CallFill.Workspace

/-!
# Reachable workspaces

A workspace comes from source texts, whatever reads them, or from one before it by an operation. In
every workspace that arises this way no path has two texts, and the project is the one that the
texts make as they are read (`Reachable.isCurrent`).
-/

namespace CallFill

open Source

namespace Workspace

variable {w : Workspace} {path text : String}

/-- Every path has one text, and the project is made of the texts. -/
structure IsCurrent (w : Workspace) : Prop where
  nodup : (KeyedList.keys w.sources).Nodup
  project_eq : w.project = Project.ofSources w.config w.sources w.read

/-- Of several texts given for one path a new workspace has one, and it has read this one. -/
theorem isCurrent_ofSources (config : Config) (sources : List (String × String))
    (read : TreeReader) : (ofSources config sources read).IsCurrent :=
  ⟨KeyedList.nodup_putAll (t := []) List.nodup_nil sources, rfl⟩

/-- The files of a directory are read like any other texts. -/
theorem isCurrent_ofDirectory (config : Config) (files : List (String × String))
    (read : TreeReader) : (ofDirectory config files read).IsCurrent :=
  ⟨KeyedList.nodup_putAll (t := []) List.nodup_nil files, rfl⟩

namespace IsCurrent

/-- A text of the workspace is the one found at its path. -/
theorem source?_of_mem (h : w.IsCurrent) (hmem : (path, text) ∈ w.sources) :
    w.source? path = some text :=
  KeyedList.get?_of_mem h.nodup hmem

/-- Writing puts a new text in the place of the one at its path, and reads all texts again. -/
theorem write (h : w.IsCurrent) (texts : List (String × String)) : (w.write texts).IsCurrent :=
  ⟨KeyedList.nodup_putAll h.nodup texts, rfl⟩

/-- What a population leaves is the workspace before it or one with the committed texts written. -/
theorem afterPopulation (h : w.IsCurrent) (result : Except Error Report × Stage × EditorState) :
    (w.afterPopulation result).2.IsCurrent := by
  obtain ⟨report, stage, s⟩ := result
  cases report with
  | error e => exact h
  | ok report =>
      rw [Workspace.afterPopulation]
      dsimp only
      split
      · exact h
      · exact h.write _

/-- A population with given answers keeps the project that of the texts, also where it fails. -/
theorem populateWith (h : w.IsCurrent) (path : String) (offset : Nat) (o : Options)
    (sel : Selections) : (w.populateWith path offset o sel).2.IsCurrent := by
  rw [Workspace.populateWith]
  cases w.locate path offset with
  | error e => exact h
  | ok c => exact h.afterPopulation _

/-- A population that asks does so too, whatever the chooser answers. -/
theorem populate {τ : Type} (h : w.IsCurrent) (path : String) (offset : Nat) (o : Options)
    (chooser : Chooser τ) (asked : τ) :
    (w.populate path offset o chooser asked).1.2.IsCurrent := by
  rw [Workspace.populate]
  cases w.locate path offset with
  | error e => exact h
  | ok c =>
      dsimp only
      generalize w.project.host.run w.config w.project.editor chooser c.site o asked {} = result
      exact h.afterPopulation result.1

/-- Saving writes to the disk and changes neither texts nor project. -/
theorem save {δ : Type} (h : w.IsCurrent) (writeFile : String → String → δ → Except Error Unit × δ)
    (disk : δ) : (w.save writeFile disk).1.2.IsCurrent := by
  rw [Workspace.save]
  split
  · split
    · exact ⟨h.nodup, h.project_eq⟩
    · exact h
  · exact h

end IsCurrent

/-- The workspaces that source texts, read in any way, and operations lead to. -/
inductive Reachable : Workspace → Prop where
  | ofSources (config : Config) (sources : List (String × String)) (read : TreeReader) :
      Reachable (.ofSources config sources read)
  | ofDirectory (config : Config) (files : List (String × String)) (read : TreeReader) :
      Reachable (.ofDirectory config files read)
  | update {w : Workspace} (h : Reachable w) (path text : String) : Reachable (w.update path text)
  | populateWith {w : Workspace} (h : Reachable w) (path : String) (offset : Nat) (o : Options)
      (sel : Selections) : Reachable (w.populateWith path offset o sel).2
  | populate {w : Workspace} {τ : Type} (h : Reachable w) (path : String) (offset : Nat)
      (o : Options) (chooser : Chooser τ) (asked : τ) :
      Reachable (w.populate path offset o chooser asked).1.2
  | save {w : Workspace} {δ : Type} (h : Reachable w)
      (writeFile : String → String → δ → Except Error Unit × δ) (disk : δ) :
      Reachable (w.save writeFile disk).1.2

/-- However a workspace came about, its project is that of its texts. -/
theorem Reachable.isCurrent (h : w.Reachable) : w.IsCurrent := by
  induction h with
  | ofSources config sources read => exact isCurrent_ofSources config sources read
  | ofDirectory config files read => exact isCurrent_ofDirectory config files read
  | update h path text ih => exact ih.write [(path, text)]
  | populateWith h path offset o sel ih => exact ih.populateWith path offset o sel
  | populate h path offset o chooser asked ih => exact ih.populate path offset o chooser asked
  | save h writeFile disk ih => exact ih.save writeFile disk

end Workspace

end CallFill
