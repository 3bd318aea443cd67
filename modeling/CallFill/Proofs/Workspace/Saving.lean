import CallFill.Proofs.Disk.Access
import CallFill.Proofs.Workspace.Frame

/-!
# Saving

A session is a workspace loaded from a store of texts, together with the store, while operations
change the workspace and saves write to the store, in which any write may fail. Through every
session the paths that do not count as changed have in the store the texts that the workspace has
(`Session.inStep`), so a save that succeeds brings every text to the store, also those that an
earlier save did not reach (`Session.stored_of_save`). The paths of a session stay, and only an
update adds one (`Step.keys_eq`).

A store is told of one spelling of each path. A disk is a store for paths spelled as names
(`Disk.store`), and those are the paths under which files are loaded, unless a name has a backslash
(`Disk.read?_of_mem_sources`). With a backslash a workspace is out of step with the disk from the
start, and saving does not mend it (`load_backslashed`).
-/

namespace CallFill

/-- A store of texts by path. A write that succeeds leaves its text at its path, one that fails
leaves anything there, and neither touches another path. -/
structure FileStore (δ : Type) where
  /-- The spellings of paths that the store keeps apart. -/
  IsPath : String → Prop
  read? : δ → String → Option String
  write : String → String → δ → Except Error Unit × δ
  read?_write : ∀ path text d, IsPath path → (write path text d).1 = .ok () →
    read? (write path text d).2 path = some text
  read?_write_of_ne : ∀ path text d other, IsPath path → IsPath other → other ≠ path →
    read? (write path text d).2 other = read? d other

/-- The disk, at paths spelled as names. -/
def Disk.store : FileStore Disk where
  IsPath := IsPath
  read? := read?
  write := write
  read?_write _ _ _ hpath hok := Disk.read?_write hpath hok
  read?_write_of_ne _ _ _ _ hpath hother hne := Disk.read?_write_of_ne hpath hother hne

namespace Workspace

variable {δ : Type} {s : FileStore δ} {w w' : Workspace} {d d' : δ} {path text : String}
  {texts : List (String × String)} {paths : List String} {n k : Nat} {e : Error}

/-! ## Writing to a workspace -/

/-- A file that is marked is unsaved beside those that were. -/
theorem mem_markUnsaved {unsaved : List String} {other : String} :
    other ∈ markUnsaved unsaved path ↔ other ∈ unsaved ∨ other = path := by
  rw [markUnsaved]
  split
  · next hmem =>
      constructor
      · exact Or.inl
      · rintro (h | rfl)
        · exact h
        · exact List.contains_iff_mem.1 hmem
  · rw [List.mem_append, List.mem_singleton]

/-- What is written counts as changed, and so does what did before. -/
theorem mem_unsaved_write :
    path ∈ (w.write texts).unsaved ↔ path ∈ w.unsaved ∨ path ∈ KeyedList.keys texts := by
  show path ∈ (KeyedList.keys texts).foldl markUnsaved w.unsaved ↔ _
  generalize w.unsaved = unsaved
  induction KeyedList.keys texts generalizing unsaved with
  | nil => exact ⟨Or.inl, fun h => h.resolve_right List.not_mem_nil⟩
  | cons other others ih =>
      rw [List.foldl_cons, ih, mem_markUnsaved, List.mem_cons, or_assoc]

/-- Updating a text adds its path, if there was none. -/
theorem keys_update :
    KeyedList.keys (w.update path text).sources =
      if (w.source? path).isSome then KeyedList.keys w.sources
      else KeyedList.keys w.sources ++ [path] :=
  KeyedList.keys_put w.sources path text

/-- An editor commits texts of files of the workspace. -/
theorem IsCurrent.mem_keys_of_mem_committed (h : w.IsCurrent) (editor : EditorState) :
    ∀ t ∈ w.committed editor, t.1 ∈ KeyedList.keys w.sources := by
  intro t ht
  obtain ⟨⟨file, new⟩, _, hcommitted⟩ := List.mem_filterMap.1 ht
  obtain ⟨m, hm, rfl⟩ := Option.map_eq_some_iff.1 hcommitted
  rw [h.project_eq] at hm
  obtain ⟨path, text, hsource, rfl⟩ := Project.exists_source_of_file? hm
  exact List.mem_map.2 ⟨(path, text), hsource, rfl⟩

/-- The workspace is as it was, or has new texts at paths that had texts. -/
def Rewritten (w w' : Workspace) : Prop :=
  w' = w ∨ ∃ texts, w' = w.write texts ∧ ∀ t ∈ texts, t.1 ∈ KeyedList.keys w.sources

/-- A population rewrites texts that are there and marks them unsaved. -/
theorem IsCurrent.rewritten_afterPopulation (h : w.IsCurrent)
    (result : Except Error Report × Stage × EditorState) :
    w.Rewritten (w.afterPopulation result).2 := by
  obtain ⟨report, stage, editor⟩ := result
  cases report with
  | error e => exact Or.inl rfl
  | ok report =>
      by_cases hempty : editor.documents.isEmpty = true
      · exact Or.inl (if_pos hempty)
      · exact Or.inr ⟨w.committed editor, if_neg hempty, h.mem_keys_of_mem_committed editor⟩

theorem IsCurrent.rewritten_populateWith (h : w.IsCurrent) (path : String) (offset : Nat)
    (o : Options) (sel : Selections) : w.Rewritten (w.populateWith path offset o sel).2 := by
  rw [Workspace.populateWith]
  cases w.locate path offset with
  | error e => exact Or.inl rfl
  | ok c => exact h.rewritten_afterPopulation _

theorem IsCurrent.rewritten_populate {τ : Type} (h : w.IsCurrent) (path : String) (offset : Nat)
    (o : Options) (chooser : Chooser τ) (asked : τ) :
    w.Rewritten (w.populate path offset o chooser asked).1.2 := by
  rw [Workspace.populate]
  cases w.locate path offset with
  | error e => exact Or.inl rfl
  | ok c =>
      dsimp only
      generalize w.project.host.run w.config w.project.editor chooser c.site o asked {} = result
      exact h.rewritten_afterPopulation result.1

/-- A save leaves the texts. -/
theorem sources_save (w : Workspace) (writeFile : String → String → δ → Except Error Unit × δ)
    (d : δ) : (w.save writeFile d).1.2.sources = w.sources := by
  rw [save]
  split
  · split
    · rfl
    · rfl
  · rfl

/-! ## Writing to the store -/

/-- A path without a text is passed over. -/
theorem writeAll_of_none (h : w.source? path = none) :
    w.writeAll s.write n d (path :: paths) = w.writeAll s.write n d paths := by
  rw [writeAll, h]

/-- A run of writes that succeeds has written the first text and goes on from there. -/
theorem writeAll_cons_of_ok (hrun : (w.writeAll s.write n d (path :: paths)).1 = .ok k)
    (hsource : w.source? path = some text) :
    (s.write path text d).1 = .ok () ∧ w.writeAll s.write n d (path :: paths) =
      w.writeAll s.write (n + 1) (s.write path text d).2 paths := by
  rw [writeAll, hsource] at hrun ⊢
  dsimp only at hrun ⊢
  cases hwrite : s.write path text d with
  | mk result d' =>
      rw [hwrite] at hrun
      cases result with
      | ok u => exact ⟨rfl, rfl⟩
      | error e => exact nomatch hrun

/-- A run of writes does not touch the paths that it does not name. -/
theorem read?_writeAll_of_not_mem (w : Workspace) (n : Nat) (d : δ)
    (hpaths : ∀ other ∈ paths, s.IsPath other) (hpath : s.IsPath path) (h : path ∉ paths) :
    s.read? (w.writeAll s.write n d paths).2 path = s.read? d path := by
  induction paths generalizing n d with
  | nil => rfl
  | cons other paths ih =>
      have hne : path ≠ other := List.ne_of_not_mem_cons h
      have hrest := List.not_mem_of_not_mem_cons h
      have hothers : ∀ other ∈ paths, s.IsPath other :=
        fun other hother => hpaths other (List.mem_cons_of_mem _ hother)
      rw [writeAll]
      cases w.source? other with
      | none => exact ih n d hothers hrest
      | some text =>
          dsimp only
          cases hwrite : s.write other text d with
          | mk result d' =>
              have hkept : s.read? d' path = s.read? d path := by
                rw [← s.read?_write_of_ne other text d path (hpaths other List.mem_cons_self)
                  hpath hne, hwrite]
              cases result with
              | ok u =>
                  rw [← hkept]
                  exact ih (n + 1) d' hothers hrest
              | error e => exact hkept

/-- A run of writes that succeeds leaves at each path that it names the text of the workspace. -/
theorem read?_writeAll (hrun : (w.writeAll s.write n d paths).1 = .ok k)
    (hpaths : ∀ other ∈ paths, s.IsPath other) (hmem : path ∈ paths)
    (hsource : w.source? path = some text) :
    s.read? (w.writeAll s.write n d paths).2 path = some text := by
  induction paths generalizing n d with
  | nil => exact absurd hmem List.not_mem_nil
  | cons other paths ih =>
      have hothers : ∀ other ∈ paths, s.IsPath other :=
        fun other hother => hpaths other (List.mem_cons_of_mem _ hother)
      by_cases hlater : path ∈ paths
      · cases hother : w.source? other with
        | none =>
            rw [writeAll_of_none hother] at hrun ⊢
            exact ih hrun hothers hlater
        | some written =>
            obtain ⟨-, hrest⟩ := writeAll_cons_of_ok hrun hother
            rw [hrest] at hrun ⊢
            exact ih hrun hothers hlater
      · -- the last write to the path is the one at hand
        obtain rfl : path = other := (List.mem_cons.1 hmem).resolve_right hlater
        have hpath := hpaths path List.mem_cons_self
        obtain ⟨hwritten, hrest⟩ := writeAll_cons_of_ok hrun hsource
        rw [hrest, read?_writeAll_of_not_mem w _ _ hothers hpath hlater]
        exact s.read?_write path text d hpath hwritten

/-- A run of writes that succeeds counts the paths, where each has a text. -/
theorem eq_of_writeAll (hrun : (w.writeAll s.write n d paths).1 = .ok k)
    (htexts : ∀ path ∈ paths, (w.source? path).isSome = true) : k = n + paths.length := by
  induction paths generalizing n d with
  | nil => exact (Except.ok.inj hrun).symm
  | cons other paths ih =>
      obtain ⟨text, htext⟩ := Option.isSome_iff_exists.1 (htexts other List.mem_cons_self)
      obtain ⟨-, hrest⟩ := writeAll_cons_of_ok hrun htext
      rw [hrest] at hrun
      rw [ih hrun fun path hpath => htexts path (List.mem_cons_of_mem _ hpath), List.length_cons]
      omega

/-! ## Sessions -/

/-- The operations on a workspace and the store that it was loaded from, where updates spell their
paths as the store does. Previews and the other questions change neither. -/
inductive Step (s : FileStore δ) : Workspace → δ → Workspace → δ → Prop where
  | update {w : Workspace} {d : δ} (path text : String) (hpath : s.IsPath path) :
      Step s w d (w.update path text) d
  | populateWith {w : Workspace} {d : δ} (path : String) (offset : Nat) (o : Options)
      (sel : Selections) : Step s w d (w.populateWith path offset o sel).2 d
  | populate {τ : Type} {w : Workspace} {d : δ} (path : String) (offset : Nat) (o : Options)
      (chooser : Chooser τ) (asked : τ) :
      Step s w d (w.populate path offset o chooser asked).1.2 d
  | save {w : Workspace} {d : δ} : Step s w d (w.save s.write d).1.2 (w.save s.write d).2

/-- What operations, one after the other, make of a workspace and a store, when nothing else writes
to the store. -/
inductive Session (s : FileStore δ) (w : Workspace) (d : δ) : Workspace → δ → Prop where
  | start : Session s w d w d
  | step {w₁ w₂ : Workspace} {d₁ d₂ : δ} (h : Session s w d w₁ d₁) (hstep : Step s w₁ d₁ w₂ d₂) :
      Session s w d w₂ d₂

/-- A workspace and the store agree: the project is that of the texts, the paths that count as
changed have texts, and all others have the same text in the store, which knows all the paths. -/
structure InStep (s : FileStore δ) (w : Workspace) (d : δ) : Prop where
  current : w.IsCurrent
  isLoaded : w.isLoaded = true
  isPath : ∀ path ∈ KeyedList.keys w.sources, s.IsPath path
  known : ∀ path ∈ w.unsaved, path ∈ KeyedList.keys w.sources
  stored : ∀ path text, w.source? path = some text → path ∉ w.unsaved →
    s.read? d path = some text

namespace InStep

/-- Loaded files are those of the store where each is loaded under its path in the store. -/
theorem load (config : Config) {files : List (String × String)}
    (hfiles : ∀ f ∈ files, s.IsPath f.1 ∧ s.read? d f.1 = some f.2) (read : Source.TreeReader) :
    InStep s (ofDirectory config files read) d where
  current := isCurrent_ofDirectory config files read
  isLoaded := rfl
  isPath := by
    intro path hmem
    rcases KeyedList.mem_keys_putAll.1 hmem with hnone | hfile
    · exact absurd hnone List.not_mem_nil
    · obtain ⟨f, hf, rfl⟩ := List.mem_map.1 hfile
      exact (hfiles f hf).1
  known := fun _ hmem => absurd hmem List.not_mem_nil
  stored := by
    intro path text hsource _
    rcases KeyedList.get?_putAll hsource with hnone | hmem
    · exact nomatch hnone
    · exact (hfiles _ hmem).2

/-- Texts that are written at paths of the disk keep the workspace in step with it. -/
theorem write (h : InStep s w d) (htexts : ∀ path ∈ KeyedList.keys texts, s.IsPath path) :
    InStep s (w.write texts) d where
  current := h.current.write texts
  isLoaded := h.isLoaded
  isPath := by
    intro path hmem
    rcases KeyedList.mem_keys_putAll.1 hmem with hold | hnew
    · exact h.isPath path hold
    · exact htexts path hnew
  known := by
    intro path hmem
    exact KeyedList.mem_keys_putAll.2 ((mem_unsaved_write.1 hmem).imp_left (h.known path))
  stored := by
    intro path text hsource hmem
    obtain ⟨hold, hnew⟩ := not_or.1 (mem_unsaved_write.not.1 hmem)
    refine h.stored path text ?_ hold
    rw [← hsource]
    exact (KeyedList.get?_putAll_of_not_mem hnew).symm

theorem rewritten (h : InStep s w d) (hrewritten : w.Rewritten w') : InStep s w' d := by
  rcases hrewritten with rfl | ⟨texts, rfl, hknown⟩
  · exact h
  · refine h.write ?_
    intro path hmem
    obtain ⟨t, ht, rfl⟩ := List.mem_map.1 hmem
    exact h.isPath t.1 (hknown t ht)

/-- Every unsaved file has a text. -/
theorem isSome_source? (h : InStep s w d) : ∀ path ∈ w.unsaved, (w.source? path).isSome = true :=
  fun path hmem => KeyedList.has_iff_mem_keys.2 (h.known path hmem)

/-- Every unsaved file is one of the disk. -/
theorem isPath_unsaved (h : InStep s w d) : ∀ path ∈ w.unsaved, s.IsPath path :=
  fun path hmem => h.isPath path (h.known path hmem)

/-- Every text is that of a file of the disk. -/
theorem isPath_of_source? (h : InStep s w d) (hsource : w.source? path = some text) :
    s.IsPath path :=
  h.isPath path (KeyedList.has_iff_mem_keys.1 (Option.isSome_of_eq_some hsource))

/-- A save that succeeds has written all that had changed, and now every text is in the store. -/
theorem of_save_ok (h : InStep s w d) (hsave : (w.save s.write d).1.1 = .ok n) :
    n = w.unsaved.length ∧ (w.save s.write d).1.2 = { w with unsaved := [] } ∧
      ∀ path text, w.source? path = some text →
        s.read? (w.save s.write d).2 path = some text := by
  rw [save, if_pos h.isLoaded] at hsave ⊢
  cases hrun : w.writeAll s.write 0 d w.unsaved with
  | mk result d' =>
      rw [hrun] at hsave
      cases result with
      | error e => cases hsave
      | ok k =>
          have hok : (w.writeAll s.write 0 d w.unsaved).1 = .ok n := by
            rw [hrun]
            exact hsave
          have hcount := eq_of_writeAll hok h.isSome_source?
          rw [Nat.zero_add] at hcount
          refine ⟨hcount, rfl, ?_⟩
          intro path text hsource
          have hstore : (w.writeAll s.write 0 d w.unsaved).2 = d' := by rw [hrun]
          rw [← hstore]
          by_cases hmem : path ∈ w.unsaved
          · exact read?_writeAll hok h.isPath_unsaved hmem hsource
          · have hpath := h.isPath_of_source? hsource
            rw [read?_writeAll_of_not_mem w 0 d h.isPath_unsaved hpath hmem]
            exact h.stored path text hsource hmem

/-- A save that fails forgets nothing: all that had changed still counts as changed, and the store
is as it was at all other paths. -/
theorem of_save_error (h : InStep s w d) (hsave : (w.save s.write d).1.1 = .error e) :
    (w.save s.write d).1.2 = w ∧
      ∀ path, s.IsPath path → path ∉ w.unsaved →
        s.read? (w.save s.write d).2 path = s.read? d path := by
  rw [save, if_pos h.isLoaded] at hsave ⊢
  have hkept : ∀ path, s.IsPath path → path ∉ w.unsaved →
      s.read? (w.writeAll s.write 0 d w.unsaved).2 path = s.read? d path :=
    fun path hpath hmem => read?_writeAll_of_not_mem w 0 d h.isPath_unsaved hpath hmem
  cases hrun : w.writeAll s.write 0 d w.unsaved with
  | mk result d' =>
      rw [hrun] at hsave hkept
      cases result with
      | ok k => cases hsave
      | error e => exact ⟨rfl, hkept⟩

/-- Saving keeps the workspace in step, as far as it gets. -/
theorem save (h : InStep s w d) : InStep s (w.save s.write d).1.2 (w.save s.write d).2 := by
  cases hsave : (w.save s.write d).1.1 with
  | ok n =>
      obtain ⟨_, hworkspace, hstored⟩ := h.of_save_ok hsave
      rw [hworkspace]
      exact ⟨⟨h.current.nodup, h.current.project_eq⟩, h.isLoaded, h.isPath,
        fun _ hmem => absurd hmem List.not_mem_nil, fun path text hsource _ =>
          hstored path text hsource⟩
  | error e =>
      obtain ⟨hworkspace, hkept⟩ := h.of_save_error hsave
      rw [hworkspace]
      refine ⟨h.current, h.isLoaded, h.isPath, h.known, ?_⟩
      intro path text hsource hmem
      rw [hkept path (h.isPath_of_source? hsource) hmem]
      exact h.stored path text hsource hmem

end InStep

/-- Each operation keeps a workspace and the store in step. -/
theorem Step.inStep (hstep : Step s w d w' d') (h : InStep s w d) : InStep s w' d' := by
  cases hstep with
  | update path text hpath =>
      refine h.write ?_
      intro other hmem
      rw [List.mem_singleton.1 hmem]
      exact hpath
  | populateWith path offset o sel =>
      exact h.rewritten (h.current.rewritten_populateWith path offset o sel)
  | populate path offset o chooser asked =>
      exact h.rewritten (h.current.rewritten_populate path offset o chooser asked)
  | save => exact h.save

/-- Rewriting texts adds no file and takes none away. -/
theorem Rewritten.keys_eq (h : w.Rewritten w') :
    KeyedList.keys w'.sources = KeyedList.keys w.sources := by
  rcases h with rfl | ⟨texts, rfl, hknown⟩
  · rfl
  · exact KeyedList.keys_putAll_of_mem hknown

/-- Each operation leaves the paths as they are, but for an update at a new path, which adds it. -/
theorem Step.keys_eq (hstep : Step s w d w' d') (h : w.IsCurrent) :
    KeyedList.keys w'.sources = KeyedList.keys w.sources ∨
      ∃ path text, w' = w.update path text ∧ w.source? path = none ∧
        KeyedList.keys w'.sources = KeyedList.keys w.sources ++ [path] := by
  cases hstep with
  | update path text _ =>
      rw [keys_update]
      cases hsource : w.source? path with
      | some old => exact Or.inl rfl
      | none => exact Or.inr ⟨path, text, rfl, hsource, rfl⟩
  | populateWith path offset o sel =>
      exact Or.inl (h.rewritten_populateWith path offset o sel).keys_eq
  | populate path offset o chooser asked =>
      exact Or.inl (h.rewritten_populate path offset o chooser asked).keys_eq
  | save =>
      rw [sources_save]
      exact Or.inl rfl

/-- Through a session a workspace and the store stay in step, and no path is lost. -/
theorem Session.inStep (hsession : Session s w d w' d') (h : InStep s w d) :
    InStep s w' d' ∧ KeyedList.keys w.sources <+: KeyedList.keys w'.sources := by
  induction hsession with
  | start => exact ⟨h, List.prefix_rfl⟩
  | step _ hstep ih =>
      obtain ⟨hbefore, hkeys⟩ := ih
      refine ⟨hstep.inStep hbefore, hkeys.trans ?_⟩
      rcases hstep.keys_eq hbefore.current with heq | ⟨path, text, _, _, heq⟩
      · exact heq ▸ List.prefix_rfl
      · exact heq ▸ List.prefix_append _ _

/-- However a session went since the files were loaded, also if writes failed, a save that succeeds
brings every text of the workspace to the store. -/
theorem Session.stored_of_save {config : Config} {files : List (String × String)}
    {read : Source.TreeReader} (hfiles : ∀ f ∈ files, s.IsPath f.1 ∧ s.read? d f.1 = some f.2)
    (hsession : Session s (ofDirectory config files read) d w d')
    (hsave : (w.save s.write d').1.1 = .ok n) :
    ∀ path text, (w.save s.write d').1.2.source? path = some text →
      s.read? (w.save s.write d').2 path = some text := by
  obtain ⟨hstep, _⟩ := hsession.inStep (InStep.load config hfiles read)
  obtain ⟨_, hworkspace, hstored⟩ := hstep.of_save_ok hsave
  rw [hworkspace]
  exact hstored

/-- In a session with a disk as a file system has it, where no name has a backslash, a save that
succeeds brings every text to the disk. -/
theorem Session.read?_of_save {config : Config} {read : Source.TreeReader} {disk disk' : Disk}
    (hdisk : disk.WellFormed)
    (hplain : ∀ place ∈ KeyedList.keys disk.files, ∀ name ∈ place, '\\' ∉ name.toList)
    (hsession : Session Disk.store (ofDirectory config disk.sources read) disk w disk')
    (hsave : (w.save Disk.write disk').1.1 = .ok n) :
    ∀ path text, (w.save Disk.write disk').1.2.source? path = some text →
      (w.save Disk.write disk').2.read? path = some text :=
  Session.stored_of_save (fun _ hf => Disk.read?_of_mem_sources hdisk hplain hf) hsession hsave

/-- The file listed under the path of another one is never saved, and what it hides is lost. -/
theorem load_backslashed :
    let w := ofDirectory .default Disk.backslashed.sources
    w.source? "a/b.py" = some "y = 2\n" ∧ w.unsaved = [] ∧
      Disk.backslashed.read? "a/b.py" = some "x = 1\n" ∧
      (w.save Disk.write Disk.backslashed).1.1 = .ok 0 ∧
      (w.save Disk.write Disk.backslashed).2.read? "a/b.py" = some "x = 1\n" := by
  obtain ⟨hsources, hread, _⟩ := Disk.sources_backslashed
  rw [hsources]
  refine ⟨by decide +kernel, rfl, hread, rfl, hread⟩

end Workspace

/-- A store in memory, with the outcomes of the writes to come; a write that fails leaves its path
with an empty text, and once the outcomes are used up every write succeeds. -/
def FileStore.ofOutcomes : FileStore (KeyedList String String × List Bool) where
  IsPath _ := True
  read? d path := KeyedList.get? d.1 path
  write path text d :=
    match d.2 with
    | [] => (.ok (), (KeyedList.put d.1 path text, []))
    | true :: outcomes => (.ok (), (KeyedList.put d.1 path text, outcomes))
    | false :: outcomes => (.error .io, (KeyedList.put d.1 path "", outcomes))
  read?_write := by
    rintro path text ⟨files, _ | ⟨_ | _, outcomes⟩⟩ _ hok
    · exact (KeyedList.get?_put files path path text).trans (if_pos rfl)
    · exact nomatch hok
    · exact (KeyedList.get?_put files path path text).trans (if_pos rfl)
  read?_write_of_ne := by
    rintro path text ⟨files, _ | ⟨_ | _, outcomes⟩⟩ other _ _ hne
    · exact (KeyedList.get?_put files path other text).trans (if_neg (Ne.symm hne))
    · exact (KeyedList.get?_put files path other "").trans (if_neg (Ne.symm hne))
    · exact (KeyedList.get?_put files path other text).trans (if_neg (Ne.symm hne))

/-- Two files that change: their first save ends at the second file, the next one writes both. -/
example :
    let store := ([("a.py", ""), ("b.py", "")], [true, false])
    let loaded := Workspace.ofDirectory .default store.1
    let w := (loaded.update "a.py" "x = 1\n").update "b.py" "y = 2\n"
    let first := w.save FileStore.ofOutcomes.write store
    let second := first.1.2.save FileStore.ofOutcomes.write first.2
    (first.1.1, first.2.1) = (.error .io, [("a.py", "x = 1\n"), ("b.py", "")]) ∧
      (second.1.1, second.2.1) = (.ok 2, [("a.py", "x = 1\n"), ("b.py", "y = 2\n")]) := by
  decide +kernel

end CallFill
