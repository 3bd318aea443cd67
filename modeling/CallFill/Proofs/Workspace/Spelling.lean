import CallFill.Proofs.Workspace.Preview

/-!
# Spellings of paths

A workspace keeps texts by the spellings of paths, but finds files by the paths that they spell. So
the operations at a path work on the text whose spelling of this path arrived first
(`Workspace.heldAt?`), and an update in another spelling, though it keeps its text, is not what they
work on. They read what was written last where no other spelling came before
(`Workspace.reads_own_write_iff`), but not everywhere (`Workspace.update_of_other_spelling`).
-/

namespace CallFill

/-- Whether a text is a spelling of a path. -/
def FilePath.isSpelling (path other : String) : Bool :=
  FilePath.normalized other = FilePath.normalized path

theorem FilePath.isSpelling_self (path : String) : FilePath.isSpelling path path = true :=
  decide_eq_true rfl

/-- The file found at a path is the first that is a spelling of it. -/
theorem Codebase.file?_fileByPath? (b : Codebase) (path : String) :
    (b.fileByPath? path).bind b.file? =
      b.files.find? fun m => FilePath.isSpelling path m.path := by
  rw [fileByPath?, Option.bind_map, List.find?_eq_bind_findIdx?_getElem?]
  rfl

namespace Workspace

variable {w : Workspace} {c : CallRecord} {m : SourceModule} {file : FileId}
  {path other text old shown : String} {offset : Nat} {o : Options} {sel : Selections}

/-- The first spelling of a path that has a text, with its text. -/
def heldAt? (w : Workspace) (path : String) : Option (String × String) :=
  w.sources.find? fun s => FilePath.isSpelling path s.1

/-- The text at a path after an update: the new one, unless another spelling came before. -/
def textAfter (w : Workspace) (path text : String) : String :=
  match w.heldAt? path with
  | some (other, old) => if other = path then text else old
  | none => text

/-- The operations at a path work on a file with a text: this file is found at the path, and the
calls at its offsets are calls of this file. -/
def WorksOn (w : Workspace) (path text : String) : Prop :=
  ∃ file m, w.project.fileByPath? path = some file ∧ w.project.file? file = some m ∧
    m.text = text ∧
    ∀ offset, (∃ c, w.locate path offset = .ok c ∧ c.site.file = file) ∨
      w.locate path offset = .error (.noCallAt path offset)

/-- A path has at most one text to work on. -/
theorem WorksOn.unique (h : w.WorksOn path text) (hother : w.WorksOn path old) : text = old := by
  obtain ⟨file, m, hpath, hfile, rfl, _⟩ := h
  obtain ⟨file', m', hpath', hfile', rfl, _⟩ := hother
  obtain rfl : file = file' := Option.some.inj (hpath.symm.trans hpath')
  obtain rfl : m = m' := Option.some.inj (hfile.symm.trans hfile')
  rfl

/-- A call found at an offset of a file is a call of this file. -/
theorem file_of_callAt? {p : Project} (h : p.callAt? file offset = some c) :
    c.site.file = file := by
  have hmem := (List.mem_filter.1 (Codebase.of_shortest h).1).2
  rw [Bool.and_eq_true, Bool.and_eq_true] at hmem
  exact of_decide_eq_true hmem.1.1

/-- Where a file is found, the calls at its offsets are its own. -/
theorem locate_of_fileByPath? (h : w.project.fileByPath? path = some file) (offset : Nat) :
    (∃ c, w.locate path offset = .ok c ∧ c.site.file = file) ∨
      w.locate path offset = .error (.noCallAt path offset) := by
  rw [locate, h]
  dsimp only
  cases hcall : w.project.callAt? file offset with
  | none => exact Or.inr rfl
  | some c => exact Or.inl ⟨c, rfl, file_of_callAt? hcall⟩

namespace IsCurrent

/-- Files are found by the first spellings of their paths. -/
theorem file?_at (h : w.IsCurrent) (path : String) :
    (w.project.fileByPath? path).bind w.project.file? =
      (w.heldAt? path).map fun s => SourceModule.ofText s.1 s.2 w.read := by
  have hfiles : w.project.files = w.sources.map fun s => SourceModule.ofText s.1 s.2 w.read := by
    rw [h.project_eq, Project.files_ofSources]
  have hpaths : (fun m : SourceModule => FilePath.isSpelling path m.path) ∘
      (fun s : String × String => SourceModule.ofText s.1 s.2 w.read) =
      fun s => FilePath.isSpelling path s.1 := by
    funext s
    rw [Function.comp_apply, SourceModule.path_ofText]
  rw [Codebase.file?_fileByPath?, hfiles, List.find?_map, hpaths, heldAt?]

/-- The operations at a path work on the text of its first spelling. -/
theorem worksOn (h : w.IsCurrent) (hheld : w.heldAt? path = some (other, text)) :
    w.WorksOn path text := by
  have hat := h.file?_at path
  rw [hheld] at hat
  obtain ⟨file, hpath, hfile⟩ := Option.bind_eq_some_iff.1 hat
  exact ⟨file, _, hpath, hfile, rfl, locate_of_fileByPath? hpath⟩

/-- Only where a spelling has a text is there a text to work on. -/
theorem heldAt?_of_worksOn (h : w.IsCurrent) (hworks : w.WorksOn path text) :
    ∃ other, w.heldAt? path = some (other, text) := by
  obtain ⟨file, m, hpath, hfile, rfl, _⟩ := hworks
  have hat := h.file?_at path
  rw [hpath, Option.bind_some, hfile] at hat
  obtain ⟨⟨other, old⟩, hheld, rfl⟩ := Option.map_eq_some_iff.1 hat.symm
  exact ⟨other, hheld⟩

end IsCurrent

/-! ## Updates -/

/-- After an update a path leads to the same spelling as before, and to the new text if it was this
spelling that was updated. A path that led nowhere leads to the new text if it spells the updated
path. -/
theorem heldAt?_update (w : Workspace) (path text other : String) :
    (w.update path text).heldAt? other =
      match w.heldAt? other with
      | some s => some (if s.1 = path then (path, text) else s)
      | none => if FilePath.isSpelling other path then some (path, text) else none := by
  have hput := KeyedList.find?_put w.sources path text (FilePath.isSpelling other)
  rw [heldAt?, heldAt?]
  show List.find? _ (KeyedList.put w.sources path text) = _
  rw [hput]
  cases w.sources.find? fun s => FilePath.isSpelling other s.1 with
  | none => rfl
  | some s => rfl

/-- An update leaves the first spelling of its path first. -/
theorem exists_heldAt?_update (w : Workspace) (path text : String) :
    ∃ first, (w.update path text).heldAt? path = some (first, w.textAfter path text) := by
  rw [heldAt?_update, textAfter]
  cases hheld : w.heldAt? path with
  | none =>
      dsimp only
      rw [if_pos (FilePath.isSpelling_self path)]
      exact ⟨path, rfl⟩
  | some s =>
      obtain ⟨first, old⟩ := s
      dsimp only
      by_cases hfirst : first = path
      · rw [if_pos hfirst, if_pos hfirst]
        exact ⟨path, rfl⟩
      · rw [if_neg hfirst, if_neg hfirst]
        exact ⟨first, rfl⟩

/-- After an update its path has the new text, and the operations there work on the text of the
spelling that came first, whatever came before. -/
theorem update_worksOn (h : w.Reachable) (path text : String) :
    (w.update path text).source? path = some text ∧
      (w.update path text).WorksOn path (w.textAfter path text) := by
  obtain ⟨first, hheld⟩ := exists_heldAt?_update w path text
  exact ⟨source?_write_self w path text, (h.update path text).isCurrent.worksOn hheld⟩

/-- The operations at a path work on what was written there last exactly where no other spelling of
the path, with another text, came before. -/
theorem reads_own_write_iff (h : w.Reachable) (path text : String) :
    (w.update path text).WorksOn path text ↔
      ∀ other old, w.heldAt? path = some (other, old) → other ≠ path → old = text := by
  have hworks := (update_worksOn h path text).2
  -- at one path the operations work on one text only
  have hafter : (w.update path text).WorksOn path text ↔ w.textAfter path text = text := by
    constructor
    · exact fun hown => hworks.unique hown
    · intro heq
      rw [heq] at hworks
      exact hworks
  rw [hafter, textAfter]
  cases hheld : w.heldAt? path with
  | none =>
      constructor
      · rintro _ other old hnone
        exact nomatch hnone
      · exact fun _ => rfl
  | some s =>
      obtain ⟨first, kept⟩ := s
      dsimp only
      constructor
      · rintro heq other old hsome hne
        obtain ⟨rfl, rfl⟩ := Prod.mk.inj (Option.some.inj hsome)
        rw [if_neg hne] at heq
        exact heq
      · intro hall
        by_cases hfirst : first = path
        · rw [if_pos hfirst]
        · rw [if_neg hfirst]
          exact hall first kept rfl hfirst

/-- An update leaves what the operations at other paths work on. -/
theorem update_worksOn_other (h : w.Reachable) (hother : FilePath.isSpelling other path = false) :
    (w.update path text).WorksOn other old ↔ w.WorksOn other old := by
  -- the spelling that the other path leads to is not the one updated
  have hheld : (w.update path text).heldAt? other = w.heldAt? other := by
    rw [heldAt?_update]
    cases hfound : w.heldAt? other with
    | none =>
        dsimp only
        rw [hother]
        rfl
    | some s =>
        have hne : s.1 ≠ path := by
          rintro rfl
          have hspells := List.find?_some hfound
          rw [hother] at hspells
          exact nomatch hspells
        dsimp only
        rw [if_neg hne]
  constructor
  · intro hworks
    obtain ⟨first, hfirst⟩ := (h.update path text).isCurrent.heldAt?_of_worksOn hworks
    rw [hheld] at hfirst
    exact h.isCurrent.worksOn hfirst
  · intro hworks
    obtain ⟨first, hfirst⟩ := h.isCurrent.heldAt?_of_worksOn hworks
    rw [← hheld] at hfirst
    exact (h.update path text).isCurrent.worksOn hfirst

/-- Under another spelling of its path a file cannot be rewritten: the update keeps the text, and
the call is still that of the old one. -/
theorem update_of_other_spelling :
    (oneCall.update "./m.py" "def f(b): pass\nf()\n").source? "./m.py" =
      some "def f(b): pass\nf()\n" ∧
    ((oneCall.update "./m.py" "def f(b): pass\nf()\n").missing "./m.py" 16 {}).map
      (·.map (·.name)) = .ok ["a"] ∧
    ¬ (oneCall.update "./m.py" "def f(b): pass\nf()\n").WorksOn "./m.py"
      "def f(b): pass\nf()\n" := by
  refine ⟨by decide +kernel, by decide +kernel, ?_⟩
  have hheld : oneCall.heldAt? "./m.py" = some ("m.py", "def f(a): pass\nf()\n") := by
    decide +kernel
  have hreachable : oneCall.Reachable := Reachable.ofSources _ _ _
  rw [reads_own_write_iff hreachable]
  intro hall
  exact absurd (hall _ _ hheld (by decide)) (by decide)

/-! ## Previews -/

/-- A preview under the first spelling of a path shows the call as filling it leaves it. -/
theorem preview_shows_population_of_first (h : w.Reachable) (hread : w.ReadFaultlessly)
    (hfirst : w.heldAt? path = some (path, text))
    (hpreview : w.preview path offset o sel = .ok shown) :
    ∃ c m report w', w.locate path offset = .ok c ∧ w.project.file? c.site.file = some m ∧
      w.populateWith path offset o sel = (.ok report, w') ∧ w'.ShowsCall c m shown := by
  obtain ⟨c, m, report, w', hlocate, hfile, hresult, hshows⟩ :=
    preview_shows_population h hread hpreview
  obtain ⟨file, m', _, hfile', rfl, hcalls⟩ := h.isCurrent.worksOn hfirst
  have hown : c.site.file = file := by
    rcases hcalls offset with ⟨c', hlocate', hown⟩ | hnone
    · obtain rfl : c' = c := Except.ok.inj (hlocate'.symm.trans hlocate)
      exact hown
    · rw [hnone] at hlocate
      exact nomatch hlocate
  rw [← hown] at hfile'
  obtain rfl : m' = m := Option.some.inj (hfile'.symm.trans hfile)
  exact ⟨c, m', report, w', hlocate, hfile, hresult,
    hshows (h.isCurrent.source?_of_mem (List.mem_of_find?_eq_some hfirst))⟩

end Workspace

end CallFill
