import CallFill.Proofs.Codebase.SymbolClasses
import CallFill.Proofs.Scope.Nesting

/-!
# The scopes of a codebase

A module numbers its scopes from its own first one, and a codebase lists them behind those of the
modules before it, so that every number moves by the same amount (`Codebase.ScopesByFile`). What the
walk over a module keeps therefore holds in every codebase: the scopes of a file nest in that of its
module, each behind the one around it (`Codebase.ScopesNest`).

From every scope a chain of scopes leads outwards to the module (`Codebase.Outward`). It stays in
the file, and looking a name up finds the innermost scope of the chain that binds the name, class
bodies left out unless the search starts there (`Codebase.Outward.lookup?_eq`). What a name means
from a scope depends on no scope of another file (`Codebase.ScopesNest.resolveFrom_eq`).
-/

namespace CallFill

open Source

/-! ## Modules that have been read -/

namespace SourceModule

/-- The module is read from a syntax tree: that of a module, or tokens that form none. -/
def ReadFrom (m : SourceModule) (tree : SyntaxTree) : Prop :=
  (tree.kind = .module ∨ tree.kind = .error) ∧ ∃ path text, m = ofTree path text tree

/-- The module is read from some syntax tree. -/
def IsRead (m : SourceModule) : Prop :=
  ∃ tree, m.ReadFrom tree

variable {m : SourceModule} {tree : SyntaxTree}

theorem readFrom_ofText (path text : String) : (ofText path text).ReadFrom (parse text.toList) :=
  ⟨.inl (kind_parse _), path, text, rfl⟩

/-- A module of a text is read off a tree. -/
theorem isRead_ofText (path text : String) : (ofText path text).IsRead :=
  ⟨_, readFrom_ofText path text⟩

/-- A module is walked through its statements, and so are tokens that form none. -/
theorem ofTree_of_kind (source : List Char) (h : tree.kind = .module ∨ tree.kind = .error) :
    Outline.ofTree source tree = Outline.walkAll source {} {} tree.children := by
  have htarget : Outline.binder source tree = [] := by
    rcases h with h | h <;> simp [Outline.binder, Outline.target?, h]
  rw [Outline.ofTree, Outline.walk_other, htarget]
  · rfl
  all_goals rcases h with h | h <;> simp [h]

/-- The outline of a module is that of a tree of the kind of a module with the same statements. -/
theorem ReadFrom.exists_root (h : m.ReadFrom tree) : ∃ root, root.kind = .module ∧
    root.children = tree.children ∧ m.outline = Outline.ofTree m.text.toList root := by
  obtain ⟨hkind, path, text, rfl⟩ := h
  refine ⟨.node .module none 0 0 tree.children, rfl, rfl, ?_⟩
  rw [ofTree_of_kind _ (.inl rfl)]
  exact ofTree_of_kind _ hkind

/-- The scopes of a module are nested. -/
theorem IsRead.nested (h : m.IsRead) : m.outline.Nested := by
  obtain ⟨tree, htree⟩ := h
  obtain ⟨root, hroot, -, houtline⟩ := htree.exists_root
  rw [houtline]
  exact Outline.nested_ofTree _ hroot

/-- A call of a module is recorded in one of its scopes. -/
theorem IsRead.scope_lt (h : m.IsRead) {call : CallDef} (hcall : call ∈ m.outline.calls) :
    call.scope < m.outline.scopes.length := by
  obtain ⟨tree, htree⟩ := h
  obtain ⟨root, hroot, -, houtline⟩ := htree.exists_root
  rw [houtline] at hcall ⊢
  obtain ⟨chains, hfits⟩ := Outline.fits_ofTree m.text.toList hroot
  exact hfits.scope_lt hcall

end SourceModule

namespace Codebase

variable {b : Codebase} {file : FileId} {m : SourceModule} {id : ScopeId} {s : ScopeRecord}

/-! ## The scopes of each file -/

/-- The scopes of a file are those of its module, behind so many others. -/
def ScopesAre (b : Codebase) (file : FileId) (base : Nat) (o : Outline) : Prop :=
  ∀ (id : ScopeId) (s : ScopeRecord), (b.scope? id = some s ∧ s.file = file) ↔
    ∃ k d, o.scopes[k]? = some d ∧ id = ⟨base + k⟩ ∧ s = scopeRecord file base d

/-- Every scope is one of its file, and every file has the scopes of its module. -/
structure ScopesByFile (b : Codebase) : Prop where
  file : ∀ (id : ScopeId) (s : ScopeRecord), b.scope? id = some s → ∃ m, b.file? s.file = some m
  scopes : ∀ (file : FileId) (m : SourceModule), b.file? file = some m →
    ∃ base, b.ScopesAre file base m.outline

/-- A scope of a codebase with one more module was there before, or is one of the module. -/
theorem scope?_add_iff : (b.add m).scope? id = some s ↔ b.scope? id = some s ∨
    ∃ k d, m.outline.scopes[k]? = some d ∧ id = ⟨b.scopes.length + k⟩ ∧
      s = scopeRecord ⟨b.files.length⟩ b.scopes.length d := by
  constructor
  · intro h
    rw [scope?, scopes_add] at h
    by_cases hlt : id.index < b.scopes.length
    · rw [List.getElem?_append_left hlt] at h
      exact .inl h
    · rw [List.getElem?_append_right (by omega), List.getElem?_map] at h
      obtain ⟨d, hd, rfl⟩ := Option.map_eq_some_iff.1 h
      refine .inr ⟨_, d, hd, ?_, rfl⟩
      rw [Nat.add_sub_cancel' (by omega)]
  · rintro (h | ⟨k, d, hd, rfl, rfl⟩)
    · obtain ⟨hlt, -⟩ := List.getElem?_eq_some_iff.1 h
      rw [scope?, scopes_add, List.getElem?_append_left hlt]
      exact h
    · exact scopesFrom_add b m k d hd

theorem index_lt_of_file? (h : b.file? file = some m) : file.index < b.files.length :=
  (List.getElem?_eq_some_iff.1 h).1

/-- A module that is added brings its scopes, numbered after those before. -/
theorem ScopesByFile.add (h : b.ScopesByFile) (m : SourceModule) : (b.add m).ScopesByFile := by
  -- no scope that was there lies in the new file
  have hold : ∀ {id s}, b.scope? id = some s → s.file ≠ ⟨b.files.length⟩ := by
    intro id s hs hnew
    obtain ⟨m', hm'⟩ := h.file id s hs
    have hlt := index_lt_of_file? hm'
    rw [hnew] at hlt
    exact Nat.lt_irrefl _ hlt
  constructor
  · intro id s hs
    rcases scope?_add_iff.1 hs with hs | ⟨k, d, -, -, rfl⟩
    · obtain ⟨m', hm'⟩ := h.file id s hs
      exact ⟨m', file?_add hm'⟩
    · exact ⟨m, file?_add_new b m⟩
  · intro file m' hm'
    rcases file?_add_cases hm' with ⟨rfl, rfl⟩ | ⟨-, hm'⟩
    · refine ⟨b.scopes.length, fun id s => ?_⟩
      rw [scope?_add_iff]
      constructor
      · rintro ⟨hs | hs, hfile⟩
        · exact absurd hfile (hold hs)
        · exact hs
      · rintro ⟨k, d, hd, rfl, rfl⟩
        exact ⟨.inr ⟨k, d, hd, rfl, rfl⟩, rfl⟩
    · obtain ⟨base, hbase⟩ := h.scopes file m' hm'
      refine ⟨base, fun id s => Iff.trans ?_ (hbase id s)⟩
      rw [scope?_add_iff]
      constructor
      · rintro ⟨hs | ⟨k, d, -, -, rfl⟩, hfile⟩
        · exact ⟨hs, hfile⟩
        · have hlt := index_lt_of_file? hm'
          rw [← hfile] at hlt
          exact absurd hlt (Nat.lt_irrefl _)
      · exact fun ⟨hs, hfile⟩ => ⟨.inl hs, hfile⟩

/-- The scopes of a codebase are listed file by file. -/
theorem scopesByFile_ofModules (config : Config) (modules : List SourceModule)
    (read : TreeReader) :
    (ofModules config modules read).ScopesByFile := by
  refine List.foldlRecOn modules add ?_ fun b hb m _ => hb.add m
  exact ⟨fun _ _ hs => (nomatch hs), fun _ _ hm => (nomatch hm)⟩

/-! ## How the scopes nest -/

/-- The scopes of each file nest in that of its module, and every call stands in one of them. -/
structure ScopesNest (b : Codebase) : Prop where
  file : ∀ {id s}, b.scope? id = some s → ∃ m, b.file? s.file = some m
  parent : ∀ {id s p}, b.scope? id = some s → s.parent = some p →
    p.index < id.index ∧ ∃ outer, b.scope? p = some outer ∧ outer.file = s.file
  root_iff : ∀ {id s}, b.scope? id = some s → (s.parent = none ↔ s.kind = .moduleBody)
  root : ∀ {file m}, b.file? file = some m →
    ∃! id, ∃ s, b.scope? id = some s ∧ s.file = file ∧ s.parent = none
  call : ∀ {c}, c ∈ b.calls → ∃ s, b.scope? c.site.scope = some s ∧ s.file = c.site.file

/-- A scope of a codebase is one of the module in its file. -/
theorem ScopesByFile.exists_def (h : b.ScopesByFile)
    (hread : ∀ file m, b.file? file = some m → m.IsRead) (hs : b.scope? id = some s) :
    ∃ (o : Outline) (base k : Nat) (d : ScopeDef), o.Nested ∧ b.ScopesAre s.file base o ∧
      o.scopes[k]? = some d ∧ id = ⟨base + k⟩ ∧ s = scopeRecord s.file base d := by
  obtain ⟨m, hm⟩ := h.file id s hs
  obtain ⟨base, hbase⟩ := h.scopes _ m hm
  obtain ⟨k, d, hd, hid, hrecord⟩ := (hbase id s).1 ⟨hs, rfl⟩
  exact ⟨m.outline, base, k, d, (hread _ m hm).nested, hbase, hd, hid, hrecord⟩

/-- What nests in each module nests in the codebase. -/
theorem ScopesByFile.nest (h : b.ScopesByFile) (hcalls : b.Numbered)
    (hread : ∀ file m, b.file? file = some m → m.IsRead) : b.ScopesNest := by
  -- each part holds of the outline of a file, and the scopes of the file are its scopes, shifted
  refine ⟨fun {id s} hs => h.file id s hs, ?_, ?_, ?_, ?_⟩
  · intro id s p hs hp
    obtain ⟨o, base, k, d, hnested, hbase, hd, rfl, hrecord⟩ := h.exists_def hread hs
    rw [hrecord] at hp
    obtain ⟨q, hq, rfl⟩ := Option.map_eq_some_iff.1 hp
    have hqk := hnested.parent_lt hd hq
    have hlt : q < o.scopes.length := Nat.lt_trans hqk (List.getElem?_eq_some_iff.1 hd).1
    have houter := (hbase ⟨base + q⟩ _).2 ⟨q, _, List.getElem?_eq_getElem hlt, rfl, rfl⟩
    exact ⟨Nat.add_lt_add_left hqk base, _, houter⟩
  · intro id s hs
    obtain ⟨o, base, k, d, hnested, -, hd, -, hrecord⟩ := h.exists_def hread hs
    rw [hrecord]
    exact Option.map_eq_none_iff.trans
      ((hnested.parent_eq_none_iff hd).trans (hnested.kind_eq_iff hd).symm)
  · intro file m hm
    obtain ⟨base, hbase⟩ := h.scopes file m hm
    have hnested := (hread file m hm).nested
    obtain ⟨d, hd, -, hnone⟩ := hnested.first
    obtain ⟨hs, hfile⟩ := (hbase ⟨base + 0⟩ _).2 ⟨0, d, hd, rfl, rfl⟩
    refine ⟨⟨base + 0⟩, ⟨_, hs, hfile, Option.map_eq_none_iff.2 hnone⟩, ?_⟩
    rintro id ⟨s, hs, hfile, hparent⟩
    obtain ⟨k, d', hd', rfl, rfl⟩ := (hbase id s).1 ⟨hs, hfile⟩
    obtain rfl := (hnested.parent_eq_none_iff hd').1 (Option.map_eq_none_iff.1 hparent)
    rfl
  · intro c hc
    obtain ⟨m, hm, d, hd, base, hrecord, hscopes⟩ := hcalls.recorded c hc
    have hlt := (hread _ m hm).scope_lt hd
    have hscope : c.site.scope = ⟨base + d.scope⟩ :=
      congrArg (fun c : CallRecord => c.site.scope) hrecord
    rw [hscope]
    exact ⟨_, hscopes _ _ (List.getElem?_eq_getElem hlt), rfl⟩

/-! ## From a scope outwards -/

/-- The scopes from one outwards, up to one that lies in no other. -/
inductive Outward (b : Codebase) : ScopeId → List (ScopeId × ScopeRecord) → Prop where
  | root {id : ScopeId} {s : ScopeRecord} (hs : b.scope? id = some s)
      (hparent : s.parent = none) : Outward b id [(id, s)]
  | inside {id p : ScopeId} {s : ScopeRecord} {around : List (ScopeId × ScopeRecord)}
      (hs : b.scope? id = some s) (hparent : s.parent = some p)
      (h : Outward b p around) : Outward b id ((id, s) :: around)

/-- The scopes that a name is looked up in: the one the search starts from, and those around it that
are no class bodies. -/
def searched : List (ScopeId × ScopeRecord) → List (ScopeId × ScopeRecord)
  | [] => []
  | start :: around => start :: around.filter fun x => x.2.kind != .classBody

variable {around : List (ScopeId × ScopeRecord)} {name : String} {n : Nat}

namespace Outward

/-- The scopes around one are scopes of the codebase. -/
theorem scope? (h : b.Outward id around) : ∀ x ∈ around, b.scope? x.1 = some x.2 := by
  induction h with
  | root hs _ => exact List.forall_mem_singleton.2 hs
  | inside hs _ _ ih => exact List.forall_mem_cons.2 ⟨hs, ih⟩

/-- Where the scopes of the chain are the same, so is the chain. -/
theorem of_scope? {b' : Codebase} (h : b.Outward id around)
    (hsame : ∀ x ∈ around, b'.scope? x.1 = some x.2) : b'.Outward id around := by
  induction h with
  | root hs hparent => exact .root (hsame _ List.mem_cons_self) hparent
  | inside hs hparent _ ih =>
      exact .inside (hsame _ List.mem_cons_self) hparent
        (ih fun x hx => hsame x (List.mem_cons_of_mem _ hx))

/-- Around the scope that a search starts from, class bodies are passed over. -/
theorem lookupFrom_around (h : b.Outward id around) (hn : around.length ≤ n) :
    b.lookupFrom name n false id =
      (around.filter fun x => x.2.kind != .classBody).findSome? (bindingIn? name) := by
  induction h generalizing n with
  | @root id s hs hparent =>
      obtain ⟨k, rfl⟩ : ∃ k, n = k + 1 := Nat.exists_eq_add_of_le' hn
      rw [lookupFrom_succ hs, hparent, Option.bind_none, Option.or_none, Bool.false_or,
        List.filter_cons]
      cases s.kind != .classBody <;> simp
  | @inside id p s around hs hparent _ ih =>
      obtain ⟨k, rfl⟩ : ∃ k, n = k + 1 := Nat.exists_eq_add_of_le' (Nat.le_trans (by simp) hn)
      -- a class body adds nothing; any other scope answers, or the search goes on around it
      rw [lookupFrom_succ hs, hparent, Option.bind_some, ih (Nat.le_of_succ_le_succ hn),
        Bool.false_or, List.filter_cons]
      dsimp only
      cases s.kind != .classBody with
      | false => rfl
      | true =>
          rw [if_pos rfl, if_pos rfl, List.findSome?_cons]
          cases bindingIn? name (id, s) <;> rfl

/-- A search that is not cut short finds the innermost scope that binds the name among those that it
looks into. -/
theorem lookupFrom_eq (h : b.Outward id around) (hn : around.length ≤ n) :
    b.lookupFrom name n true id = (searched around).findSome? (bindingIn? name) := by
  cases h with
  | root hs hparent =>
      obtain ⟨k, rfl⟩ : ∃ k, n = k + 1 := Nat.exists_eq_add_of_le' hn
      rw [lookupFrom_succ hs, hparent]
      simp [searched]
  | @inside _ p s around hs hparent h =>
      obtain ⟨k, rfl⟩ : ∃ k, n = k + 1 := Nat.exists_eq_add_of_le' (Nat.le_trans (by simp) hn)
      rw [lookupFrom_succ hs, hparent, Option.bind_some,
        h.lookupFrom_around (Nat.le_of_succ_le_succ hn), Bool.true_or, if_pos rfl, searched,
        List.findSome?_cons]
      cases bindingIn? name (id, s) <;> rfl

/-- What is found is a scope of the chain. -/
theorem exists_of_lookupFrom (h : b.Outward id around) (hn : around.length ≤ n)
    {found : ScopeId × BindingKind} (hfound : b.lookupFrom name n true id = some found) :
    ∃ x ∈ around, x.1 = found.1 := by
  rw [h.lookupFrom_eq hn] at hfound
  obtain ⟨x, hx, hbinding⟩ := List.exists_of_findSome?_eq_some hfound
  obtain ⟨kind, -, rfl⟩ := Option.map_eq_some_iff.1 hbinding
  refine ⟨x, ?_, rfl⟩
  cases around with
  | nil => exact absurd hx List.not_mem_nil
  | cons start around =>
      rcases List.mem_cons.1 hx with rfl | hx
      · exact List.mem_cons_self
      · exact List.mem_cons_of_mem _ (List.mem_filter.1 hx).1

end Outward

namespace ScopesNest

/-- Scopes around one another have falling numbers, so from every scope the module is reached. -/
theorem exists_outward (h : b.ScopesNest) (hs : b.scope? id = some s) :
    ∃ around, b.Outward id around := by
  obtain ⟨k⟩ := id
  induction k using Nat.strongRecOn generalizing s with
  | ind k ih =>
      cases hparent : s.parent with
      | none => exact ⟨_, .root hs hparent⟩
      | some p =>
          obtain ⟨hlt, outer, houter, -⟩ := h.parent hs hparent
          obtain ⟨around, haround⟩ := ih p.index hlt houter
          exact ⟨_, .inside hs hparent haround⟩

/-- There are no more scopes around one than before it. -/
theorem length_le (h : b.ScopesNest) (haround : b.Outward id around) :
    around.length ≤ id.index + 1 := by
  induction haround with
  | root _ _ => exact Nat.le_add_left 1 _
  | inside hs hparent _ ih =>
      have hlt := (h.parent hs hparent).1
      rw [List.length_cons]
      omega

/-- The way outwards stays in the file. -/
theorem file_eq (h : b.ScopesNest) (haround : b.Outward id around) (hs : b.scope? id = some s) :
    ∀ x ∈ around, x.2.file = s.file := by
  induction haround generalizing s with
  | root hs' _ =>
      obtain rfl := Option.some.inj (hs'.symm.trans hs)
      exact List.forall_mem_singleton.2 rfl
  | inside hs' hparent _ ih =>
      obtain rfl := Option.some.inj (hs'.symm.trans hs)
      obtain ⟨-, outer, houter, hfile⟩ := h.parent hs hparent
      exact List.forall_mem_cons.2 ⟨rfl, fun x hx => (ih houter x hx).trans hfile⟩

/-- Looking a name up finds the innermost scope that binds it; a longer search finds the same. -/
theorem lookup?_eq (h : b.ScopesNest) (haround : b.Outward id around) (name : String) :
    b.lookup? name id = (searched around).findSome? (bindingIn? name) ∧
      ∀ n > id.index, b.lookupFrom name n true id = b.lookup? name id := by
  have hlength := h.length_le haround
  refine ⟨haround.lookupFrom_eq hlength, fun n hn => ?_⟩
  rw [lookup?, haround.lookupFrom_eq (n := n) (by omega), haround.lookupFrom_eq hlength]

/-- **What a name means from a scope depends on the scopes of the file alone.** Whatever the scopes
of other files were, the name would mean the same. -/
theorem resolveFrom_eq (h : b.ScopesNest) (hs : b.scope? id = some s) {scopes : List ScopeRecord}
    (hsame : ∀ id' s', b.scope? id' = some s' → s'.file = s.file → scopes[id'.index]? = some s')
    (dotted : String) :
    resolveFrom { b with scopes := scopes } id dotted = b.resolveFrom id dotted := by
  obtain ⟨around, haround⟩ := h.exists_outward hs
  have hlength := h.length_le haround
  -- all scopes outwards lie in the file, where nothing has changed
  have hchain : ∀ x ∈ around, Codebase.scope? { b with scopes := scopes } x.1 = some x.2 :=
    fun x hx => hsame x.1 x.2 (haround.scope? x hx) (h.file_eq haround hs x hx)
  have hlookup : ∀ name, Codebase.lookup? { b with scopes := scopes } name id = b.lookup? name id :=
    fun name => ((haround.of_scope? hchain).lookupFrom_eq hlength).trans
      (haround.lookupFrom_eq hlength).symm
  have hfirst : Codebase.scope? { b with scopes := scopes } id = some s := hsame id s hs rfl
  rw [resolveFrom, resolveFrom, hs, hfirst]
  cases segmentsOf dotted with
  | nil => rfl
  | cons first rest =>
      dsimp only
      rw [hlookup]
      cases hfound : b.lookup? first id with
      | none => exact resolve_with b b.symbols scopes s.file dotted
      | some found =>
          -- the scope that binds the name is one of the chain, which is the same for both
          obtain ⟨x, hx, hid⟩ := haround.exists_of_lookupFrom hlength hfound
          rw [Option.bind_some, Option.bind_some, ← hid, hchain x hx, haround.scope? x hx]
          dsimp only
          rw [resolve_with b b.symbols scopes s.file dotted,
            entityIn_with b b.symbols scopes memberFileBound, members_with b b.symbols scopes]
          rfl

end ScopesNest

end Codebase

namespace Project

open Codebase

/-- **The scopes of a project.** In a project of modules that have been read, files and calls have
the numbers of their places and the scopes of each file nest in that of its module. From every scope
a chain leads outwards and stays in the file; looking a name up ends with the innermost scope of the
chain that binds it, and what a dotted name means from a scope depends on no scope of another
file. -/
theorem scopes_ofModules (config : Config) (read : TreeReader) {modules : List SourceModule}
    (hread : ∀ m ∈ modules, m.IsRead) :
    let p := ofCodebase (Codebase.ofModules config modules read)
    (∀ i, p.file? ⟨i⟩ = modules[i]?) ∧ p.Numbered ∧ p.ScopesNest ∧
      ∀ id s, p.scope? id = some s → ∃ around, p.Outward id around ∧
        (∀ x ∈ around, x.2.file = s.file) ∧
        (∀ name, p.lookup? name id = (searched around).findSome? (bindingIn? name) ∧
          ∀ n > id.index, p.lookupFrom name n true id = p.lookup? name id) ∧
        ∀ scopes : List ScopeRecord,
          (∀ id' s', p.scope? id' = some s' → s'.file = s.file → scopes[id'.index]? = some s') →
          ∀ dotted, resolveFrom { p.toCodebase with scopes := scopes } id dotted =
            p.resolveFrom id dotted := by
  intro p
  obtain ⟨hnumbers, hfiles⟩ := numbered_ofModules config modules read
  have hnumbered : p.Numbered := numbered_ofCodebase hnumbers
  have hfile : ∀ i, p.file? ⟨i⟩ = modules[i]? := fun i => congrArg (·[i]?) hfiles
  have hscopes := scopesByFile_ofModules config modules read
  have hbyFile : p.ScopesByFile := ⟨hscopes.file, hscopes.scopes⟩
  have hnest : p.ScopesNest := hbyFile.nest hnumbered fun file m hm => by
    rw [hfile] at hm
    exact hread m (List.mem_of_getElem? hm)
  refine ⟨hfile, hnumbered, hnest, fun id s hs => ?_⟩
  obtain ⟨around, haround⟩ := hnest.exists_outward hs
  exact ⟨around, haround, hnest.file_eq haround hs, hnest.lookup?_eq haround,
    fun _ hsame dotted => hnest.resolveFrom_eq hs hsame dotted⟩

/-- A function in a class, and a function in another file. -/
def methodAndFunction : List SourceModule :=
  [.ofText "a.py" "x = 0\nclass A:\n    x = 1\n    def f(self):\n        return g(x)\n",
    .ofText "b.py" "def h(y):\n    return k(y)\n"]

/-- The name of the class body is hidden from the method, and the scopes of the second file come
behind those of the first. -/
theorem scopes_methodAndFunction :
    (∀ m ∈ methodAndFunction, m.IsRead) ∧
      (ofCodebase (Codebase.ofModules .default methodAndFunction)).ScopesNest ∧
      (ofCodebase (Codebase.ofModules .default methodAndFunction)).lookup? "x" ⟨2⟩ =
        some (⟨0⟩, .global) ∧
      (ofCodebase (Codebase.ofModules .default methodAndFunction)).calls.map
        (fun c => c.site.scope) = [⟨2⟩, ⟨4⟩] := by
  have hread : ∀ m ∈ methodAndFunction, m.IsRead :=
    List.forall_mem_cons.2 ⟨SourceModule.isRead_ofText _ _,
      List.forall_mem_singleton.2 (SourceModule.isRead_ofText _ _)⟩
  refine ⟨hread, (scopes_ofModules .default parse hread).2.2.1, ?_, ?_⟩
  · decide +kernel
  · decide +kernel

end Project

end CallFill
