import CallFill.Codebase.Basic
import CallFill.Project
import CallFill.Proofs.Scope.CallLayout

/-!
# The calls of a codebase

Every call of a codebase is numbered by its place in the list of calls and belongs to a file that
records it, whose scopes are among those of the codebase (`Codebase.Numbered`). In a project of
source texts it lies in the text of this file, as the text was given, if the texts are read as trees
that lie in them (`Project.ReadWith`).

Two questions that are asked of a codebase are answered one step at a time: where a name is found
from a scope (`Codebase.lookupFrom_succ`), and which of some calls is the shortest
(`Codebase.of_shortest`).
-/

namespace CallFill

open Source Text

namespace Codebase

/-- The scopes of the module in a file have their places after `base` scopes. -/
def ScopesFrom (b : Codebase) (file : FileId) (base : Nat) (o : Outline) : Prop :=
  ∀ (k : Nat) (s : ScopeDef), o.scopes[k]? = some s →
    b.scope? ⟨base + k⟩ = some (scopeRecord file base s)

/-- Calls have the numbers of their places, and stand in the files they name. -/
structure Numbered (b : Codebase) : Prop where
  id_eq : ∀ (i : Nat) (c : CallRecord), b.calls[i]? = some c → c.site.id = ⟨i⟩
  recorded : ∀ c ∈ b.calls, ∃ m, b.file? c.site.file = some m ∧
    ∃ d ∈ m.outline.calls, ∃ base, c = callRecord c.site.file base c.site.id d ∧
      b.ScopesFrom c.site.file base m.outline

variable {b : Codebase} {file : FileId} {m : SourceModule}

/-- The calls of a module are recorded in order, with the numbers that follow. -/
theorem getElem?_callRecords (file : FileId) (base next : Nat) (ds : List CallDef) (i : Nat) :
    (callRecords file base next ds)[i]? = ds[i]?.map (callRecord file base ⟨next + i⟩) := by
  induction ds generalizing next i with
  | nil => rfl
  | cons d ds ih =>
      cases i with
      | zero => rfl
      | succ i =>
          have hnext : next + 1 + i = next + (i + 1) := by omega
          rw [callRecords, List.getElem?_cons_succ, List.getElem?_cons_succ, ih, hnext]

/-- A recorded call is one of the module. -/
theorem mem_callRecords {base next : Nat} {ds : List CallDef} {c : CallRecord}
    (h : c ∈ callRecords file base next ds) :
    ∃ d ∈ ds, ∃ i, c = callRecord file base ⟨next + i⟩ d := by
  obtain ⟨i, hi⟩ := List.getElem?_of_mem h
  rw [getElem?_callRecords] at hi
  obtain ⟨d, hd, rfl⟩ := Option.map_eq_some_iff.1 hi
  exact ⟨d, List.mem_of_getElem? hd, i, rfl⟩

/-- Adding classes changes neither the files nor the calls nor the scopes. -/
theorem foldl_addClass (file : FileId) (module : String) (classes : List ClassDef)
    (b : Codebase) : (classes.foldl (addClass file module) b).files = b.files ∧
      (classes.foldl (addClass file module) b).calls = b.calls ∧
      (classes.foldl (addClass file module) b).scopes = b.scopes := by
  induction classes generalizing b with
  | nil => exact ⟨rfl, rfl, rfl⟩
  | cons c classes ih => exact ih (addClass file module b c)

theorem files_add (b : Codebase) (m : SourceModule) : (b.add m).files = b.files ++ [m] := by
  obtain ⟨hfiles, _⟩ := foldl_addClass ⟨b.files.length⟩ m.name m.definitions.classes b
  rw [add]
  dsimp only
  rw [hfiles]

theorem calls_add (b : Codebase) (m : SourceModule) :
    (b.add m).calls = b.calls ++
      callRecords ⟨b.files.length⟩ b.scopes.length b.calls.length m.outline.calls := by
  obtain ⟨_, hcalls, hscopes⟩ := foldl_addClass ⟨b.files.length⟩ m.name m.definitions.classes b
  rw [add]
  dsimp only
  rw [hcalls, hscopes]

theorem scopes_add (b : Codebase) (m : SourceModule) : (b.add m).scopes =
    b.scopes ++ m.outline.scopes.map (scopeRecord ⟨b.files.length⟩ b.scopes.length) := by
  obtain ⟨_, _, hscopes⟩ := foldl_addClass ⟨b.files.length⟩ m.name m.definitions.classes b
  rw [add]
  dsimp only
  rw [hscopes]

/-- Scopes stay where they are when another module is added. -/
theorem ScopesFrom.add {base : Nat} {o : Outline} (h : b.ScopesFrom file base o)
    (m : SourceModule) : (b.add m).ScopesFrom file base o := by
  intro k s hs
  have hscope := h k s hs
  obtain ⟨hlt, _⟩ := List.getElem?_eq_some_iff.1 hscope
  rw [scope?, scopes_add, List.getElem?_append_left hlt]
  exact hscope

/-- The scopes of a module that is added come after those that are there. -/
theorem scopesFrom_add (b : Codebase) (m : SourceModule) :
    (b.add m).ScopesFrom ⟨b.files.length⟩ b.scopes.length m.outline := by
  intro k s hs
  rw [scope?, scopes_add, List.getElem?_append_right (Nat.le_add_right _ _),
    Nat.add_sub_cancel_left, List.getElem?_map, hs]
  rfl

/-- A file stays where it is when another one is added. -/
theorem file?_add {m' : SourceModule} (h : b.file? file = some m) :
    (b.add m').file? file = some m := by
  obtain ⟨hlt, _⟩ := List.getElem?_eq_some_iff.1 h
  rw [file?, files_add, List.getElem?_append_left hlt]
  exact h

/-- A module that is added has the next numbers. -/
theorem Numbered.add (h : b.Numbered) (m : SourceModule) : (b.add m).Numbered := by
  have hcalls := calls_add b m
  refine ⟨?_, ?_⟩
  · intro i c hi
    rw [hcalls] at hi
    by_cases hlt : i < b.calls.length
    · rw [List.getElem?_append_left hlt] at hi
      exact h.id_eq i c hi
    · rw [List.getElem?_append_right (by omega), getElem?_callRecords] at hi
      obtain ⟨d, _, rfl⟩ := Option.map_eq_some_iff.1 hi
      show (⟨b.calls.length + (i - b.calls.length)⟩ : CallId) = ⟨i⟩
      rw [Nat.add_sub_cancel' (by omega)]
  · intro c hc
    rw [hcalls] at hc
    rcases List.mem_append.1 hc with hc | hc
    · obtain ⟨m', hm', d, hd, base, hrecord, hscopes⟩ := h.recorded c hc
      exact ⟨m', file?_add hm', d, hd, base, hrecord, hscopes.add m⟩
    · obtain ⟨d, hd, i, rfl⟩ := mem_callRecords hc
      refine ⟨m, ?_, d, hd, b.scopes.length, rfl, scopesFrom_add b m⟩
      show (b.add m).files[b.files.length]? = some m
      rw [files_add, List.getElem?_concat_length]

/-- A codebase of modules numbers their calls in order, and its files are the modules. -/
theorem numbered_ofModules (config : Config) (modules : List SourceModule)
    (read : TreeReader) :
    (ofModules config modules read).Numbered ∧
      (ofModules config modules read).files = modules := by
  have hstep : ∀ b : Codebase, b.Numbered →
      (modules.foldl Codebase.add b).Numbered ∧
        (modules.foldl Codebase.add b).files = b.files ++ modules := by
    induction modules with
    | nil => exact fun b hb => ⟨hb, (List.append_nil _).symm⟩
    | cons m modules ih =>
        intro b hb
        obtain ⟨hnumbered, hfiles⟩ := ih (b.add m) (hb.add m)
        refine ⟨hnumbered, ?_⟩
        rw [List.foldl_cons, hfiles, files_add, List.append_assoc]
        rfl
  exact hstep { config, read } ⟨by simp, by simp⟩

/-! ## One step of a search -/

/-- How a scope binds a name. -/
def bindingIn? (name : String) (x : ScopeId × ScopeRecord) : Option (ScopeId × BindingKind) :=
  (KeyedList.get? x.2.bindings name).map fun kind => (x.1, kind)

/-- A search looks into a scope, unless its names are hidden, and then goes on around it. -/
theorem lookupFrom_succ {id : ScopeId} {s : ScopeRecord} {name : String}
    (hs : b.scope? id = some s) (n : Nat) (isFirst : Bool) :
    b.lookupFrom name (n + 1) isFirst id =
      (if isFirst || s.kind != .classBody then bindingIn? name (id, s) else none).or
        (s.parent.bind (b.lookupFrom name n false)) := by
  rw [lookupFrom, hs, bindingIn?]
  dsimp only
  cases isFirst || s.kind != .classBody with
  | false => cases s.parent <;> rfl
  | true =>
      cases KeyedList.get? s.bindings name with
      | some kind => rfl
      | none => cases s.parent <;> rfl

/-! ## The shortest of some calls -/

/-- There is a shortest call among any. -/
theorem shortest_eq_none_iff {calls : List CallRecord} : shortest calls = none ↔ calls = [] := by
  cases calls with
  | nil => exact iff_of_true rfl rfl
  | cons c calls =>
      refine iff_of_false (fun h => ?_) (List.cons_ne_nil _ _)
      rw [shortest] at h
      split at h
      · split at h <;> cases h
      · cases h

/-- One of the calls is found, and none of them is shorter. -/
theorem of_shortest {calls : List CallRecord} {c : CallRecord} (h : shortest calls = some c) :
    c ∈ calls ∧ ∀ d ∈ calls, c.stop - c.start ≤ d.stop - d.start := by
  induction calls generalizing c with
  | nil => cases h
  | cons first calls ih =>
      rw [shortest] at h
      cases hrest : shortest calls with
      | none =>
          rw [hrest] at h
          obtain rfl := Option.some.inj h
          obtain rfl := shortest_eq_none_iff.1 hrest
          exact ⟨List.mem_cons_self, List.forall_mem_singleton.2 (Nat.le_refl _)⟩
      | some best =>
          obtain ⟨hmem, hleast⟩ := ih hrest
          rw [hrest] at h
          dsimp only at h
          split at h
          · next hlt =>
              obtain rfl := Option.some.inj h
              exact ⟨List.mem_cons_of_mem _ hmem,
                List.forall_mem_cons.2 ⟨Nat.le_of_lt hlt, hleast⟩⟩
          · next hle =>
              obtain rfl := Option.some.inj h
              refine ⟨List.mem_cons_self, List.forall_mem_cons.2 ⟨Nat.le_refl _, fun d hd => ?_⟩⟩
              exact Nat.le_trans (Nat.le_of_not_lt hle) (hleast d hd)

end Codebase

/-- A call as it lies in a text. -/
abbrev CallRecord.Placed (text : List Char) (gap behind : Nat → Nat → Prop) (c : CallRecord) :
    Prop :=
  CallLayout text gap behind c.start c.stop c.openParen c.closeParen c.lastArgumentEnd
    c.site.argumentCount

namespace Project

variable {config : Config} {sources : List (String × String)} {read : TreeReader}
  {c : CallRecord} {m : SourceModule}

/-- Typing a codebase leaves its calls and scopes as they are. -/
theorem numbered_ofCodebase {b : Codebase} (h : b.Numbered) : (ofCodebase b).Numbered :=
  ⟨h.id_eq, h.recorded⟩

/-- The calls of a project are numbered in order. -/
theorem numbered_ofSources (config : Config) (sources : List (String × String)) :
    (ofSources config sources read).Numbered :=
  numbered_ofCodebase (Codebase.numbered_ofModules config _ _).1

/-- The files of a project are its sources, one module for each. -/
theorem files_ofSources (config : Config) (sources : List (String × String)) :
    (ofSources config sources read).files =
      sources.map fun s => SourceModule.ofText s.1 s.2 read :=
  (Codebase.numbered_ofModules config _ _).2

/-- A file of a project is the module of one of its sources. -/
theorem exists_source_of_file? {file : FileId}
    (h : (ofSources config sources read).file? file = some m) :
    ∃ path text, (path, text) ∈ sources ∧ m = SourceModule.ofText path text read := by
  have hmem := List.mem_of_getElem? h
  rw [files_ofSources] at hmem
  obtain ⟨⟨path, text⟩, hsource, rfl⟩ := List.mem_map.1 hmem
  exact ⟨path, text, hsource, rfl⟩

/-- A call is found by its number. -/
theorem call?_of_mem (h : c ∈ (ofSources config sources read).calls) :
    (ofSources config sources read).call? c.site.id = some c := by
  obtain ⟨i, hi⟩ := List.getElem?_of_mem h
  rw [(numbered_ofSources config sources).id_eq i c hi]
  exact hi

/-- A call is one that the module of its file records. -/
theorem exists_def_of_mem_calls (h : c ∈ (ofSources config sources read).calls) :
    ∃ path text, (path, text) ∈ sources ∧
      (ofSources config sources read).file? c.site.file =
        some (SourceModule.ofText path text read) ∧
      ∃ d ∈ (SourceModule.ofText path text read).outline.calls, ∃ base,
        c = Codebase.callRecord c.site.file base c.site.id d := by
  obtain ⟨m, hm, d, hd, base, hc, _⟩ := (numbered_ofSources config sources).recorded c h
  obtain ⟨path, text, hsource, rfl⟩ := exists_source_of_file? hm
  exact ⟨path, text, hsource, hm, d, hd, base, hc⟩

/-- Every text is read as a tree that lies in it. -/
def ReadWith (read : TreeReader) (gap behind : List Char → Nat → Nat → Prop)
    (sources : List (String × String)) : Prop :=
  ∀ path text, (path, text) ∈ sources →
    (read text.toList).Lies text.toList (gap text.toList) (behind text.toList)

variable {gap behind : List Char → Nat → Nat → Prop} (hread : ReadWith read gap behind sources)
  (h : c ∈ (ofSources config sources read).calls)

include hread h

/-- A call starts and ends between characters of the text of its file. -/
theorem isBoundary_of_mem_calls (hm : (ofSources config sources read).file? c.site.file = some m) :
    IsBoundary m.text.toList c.start ∧ IsBoundary m.text.toList c.stop := by
  obtain ⟨path, text, hsource, hfile, d, hd, base, hc⟩ := exists_def_of_mem_calls h
  obtain rfl := Option.some.inj (hfile.symm.trans hm)
  rw [hc]
  exact SourceModule.isBoundary_of_mem_calls (hread path text hsource) hd

/-- A call lies in the text of its file, and new import lines do not go inside of it. -/
theorem placed_of_mem_calls :
    ∃ path text, (path, text) ∈ sources ∧
      (ofSources config sources read).file? c.site.file =
        some (SourceModule.ofText path text read) ∧
      c.Placed text.toList (gap text.toList) (behind text.toList) ∧
      ((SourceModule.ofText path text read).importOffset ≤ c.start ∨
        c.stop ≤ (SourceModule.ofText path text read).importOffset) := by
  obtain ⟨path, text, hsource, hfile, d, hd, base, hc⟩ := exists_def_of_mem_calls h
  obtain ⟨hplaced, hside⟩ := SourceModule.placed_of_mem_calls (hread path text hsource) hd
  refine ⟨path, text, hsource, hfile, ?_⟩
  rw [hc]
  exact ⟨hplaced, hside⟩

end Project

end CallFill
