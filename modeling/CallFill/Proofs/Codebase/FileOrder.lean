import CallFill.Proofs.Codebase.Calls
import CallFill.ProjectHost
import Mathlib.Data.List.Nodup

/-!
# The order of files

Handles are positions in lists that run through all files, so another order of the files gives other
handles. What a handle stands for is found in the module of its file, though, and that is the same
module in every order: where no two files have one path, a path leads to the same file
(`Project.fileByPath?_of_perm`), and where no two have one module name, a dotted name means the same
in a file whatever the order (`Project.resolve_of_perm`).

A symbol is another matter. It is told apart by its qualified name alone and keeps the kind that it
was entered with first. A class below a package of which no file is in the codebase is reached by
importing it from its module, and is then what its module declares; by the dotted path it is taken
for something from outside. Both have one qualified name, so the file that comes first decides where
the symbol comes from (`Project.provenance_of_order`), and with it the choice among the members of
a union.
-/

namespace CallFill

/-! ## Related options -/

section Options

variable {α β γ δ : Type} {r : α → β → Prop} {r' : γ → δ → Prop} {x y : Option α} {x' y' : Option β}

/-- The first of two that is there is related to the first of the others. -/
theorem rel_orElse (h : Option.Rel r x x') (h' : Option.Rel r y y') :
    Option.Rel r (x <|> y) (x' <|> y') := by
  cases h with
  | some h => exact .some h
  | none => exact h'

/-- Related results stay related under related functions. -/
theorem rel_map {f : α → γ} {f' : β → δ} (h : Option.Rel r x x')
    (hf : ∀ a b, r a b → r' (f a) (f' b)) : Option.Rel r' (x.map f) (x'.map f') := by
  cases h with
  | some h => exact .some (hf _ _ h)
  | none => exact .none

theorem rel_imp {r' : α → β → Prop} (h : Option.Rel r x x') (hr : ∀ a b, r a b → r' a b) :
    Option.Rel r' x x' := by
  cases h with
  | some h => exact .some (hr _ _ h)
  | none => exact .none

theorem rel_bind {f : α → Option γ} {f' : β → Option δ} (h : Option.Rel r x x')
    (hf : ∀ a b, r a b → Option.Rel r' (f a) (f' b)) : Option.Rel r' (x.bind f) (x'.bind f') := by
  cases h with
  | some h => exact hf _ _ h
  | none => exact .none

/-- Two options that are related to a third are related through what it holds. -/
theorem rel_through {ε : Type} {z : Option ε} {q : α → ε → Prop} {q' : β → ε → Prop}
    {r : α → β → Prop} (h : Option.Rel q x z) (h' : Option.Rel q' x' z)
    (hr : ∀ a b c, q a c → q' b c → r a b) : Option.Rel r x x' := by
  cases h with
  | some h =>
      cases h' with
      | some h' => exact .some (hr _ _ _ h h')
  | none =>
      cases h'
      exact .none

/-- Of two related results both are there, or none. -/
theorem isSome_eq_of_rel (h : Option.Rel r x x') : x.isSome = x'.isSome := by
  cases h with
  | some h => rfl
  | none => rfl

end Options

namespace Codebase

variable {b b' : Codebase} {file file' : FileId} {m : SourceModule} {name : String}

/-! ## What is listed for a file -/

/-- The position of the last entry that passes a test is where it is found from the end. -/
theorem bind_lastIndex? {α : Type} (entries : List α) (test : α → Bool) :
    (lastIndex? entries test).bind (fun i => entries[i]?) = entries.reverse.find? test := by
  rw [lastIndex?, Option.bind_map, List.find?_eq_bind_findIdx?_getElem?]
  cases hindex : entries.reverse.findIdx? test with
  | none => rfl
  | some i =>
      obtain ⟨hlt, -⟩ := List.findIdx?_eq_some_iff_getElem.1 hindex
      rw [List.length_reverse] at hlt
      exact (List.getElem?_reverse hlt).symm

/-- The last entry of a file that passes a test is the last of the definitions of the file which
does. -/
theorem rel_lastIndex? {ε δ : Type} {entries : List ε} {fileOf : ε → FileId} {definition : ε → δ}
    {definitions : List δ}
    (h : (entries.filter fun e => fileOf e = file).map definition = definitions)
    (test : δ → Bool) :
    Option.Rel (fun i d => ∃ e, entries[i]? = some e ∧ fileOf e = file ∧ definition e = d)
      (lastIndex? entries fun e => fileOf e = file && test (definition e))
      (definitions.reverse.find? test) := by
  have hfind : definitions.reverse.find? test =
      (entries.reverse.find? fun e => fileOf e = file && test (definition e)).map definition := by
    rw [← h, ← List.map_reverse, List.find?_map, ← List.filter_reverse, List.find?_filter]
    simp
  have hindex := bind_lastIndex? entries fun e => fileOf e = file && test (definition e)
  rw [hfind, ← hindex]
  cases hlast : lastIndex? entries fun e => fileOf e = file && test (definition e) with
  | none => exact .none
  | some i =>
      rw [hlast, Option.bind_some] at hindex
      rw [Option.bind_some]
      cases hentry : entries[i]? with
      | none =>
          rw [lastIndex?] at hlast
          obtain ⟨j, hj, rfl⟩ := Option.map_eq_some_iff.1 hlast
          obtain ⟨hlt, -⟩ := List.findIdx?_eq_some_iff_getElem.1 hj
          rw [List.length_reverse] at hlt
          rw [List.getElem?_eq_none_iff] at hentry
          omega
      | some e =>
          have hpasses := List.find?_some (hindex.symm.trans hentry)
          simp only [Bool.and_eq_true, decide_eq_true_eq] at hpasses
          exact .some ⟨e, hentry, hpasses.1, rfl⟩

/-- The entries of a list are for each file those of its module, in order, and none is of a file
that is not there. -/
structure Lists {ε δ : Type} (b : Codebase) (entries : List ε) (fileOf : ε → FileId)
    (definition : ε → δ) (definitions : SourceModule → List δ) : Prop where
  of_file : ∀ file m, b.file? file = some m →
    (entries.filter fun e => fileOf e = file).map definition = definitions m
  has_file : ∀ e ∈ entries, ∃ m, b.file? (fileOf e) = some m

/-- What is listed of a codebase is what its modules define. -/
structure Recorded (b : Codebase) : Prop where
  classes : Lists b b.classes ClassEntry.file ClassEntry.definition fun m => m.definitions.classes
  functions : Lists b b.functions FunctionEntry.file FunctionEntry.definition fun m =>
    m.definitions.functions
  assignments : Lists b b.assignments AssignmentEntry.file AssignmentEntry.definition fun m =>
    m.definitions.assignments
  qualifiedName_eq : ∀ c ∈ b.classes, ∀ m, b.file? c.file = some m →
    c.qualifiedName = Dotted.qualify m.name c.definition.name

/-- A file of a larger codebase is the one that was added last or was there before. -/
theorem file?_add_cases {m' : SourceModule} (h : (b.add m).file? file = some m') :
    (file = ⟨b.files.length⟩ ∧ m' = m) ∨ (file ≠ ⟨b.files.length⟩ ∧ b.file? file = some m') := by
  rw [file?, files_add] at h
  by_cases hlt : file.index < b.files.length
  · rw [List.getElem?_append_left hlt] at h
    refine Or.inr ⟨?_, h⟩
    rintro rfl
    exact Nat.lt_irrefl _ hlt
  · obtain ⟨hle, hentry⟩ := List.getElem?_eq_some_iff.1 h
    rw [List.length_append, List.length_singleton] at hle
    have hindex : file.index = b.files.length := by omega
    refine Or.inl ⟨congrArg FileId.mk hindex, ?_⟩
    rw [hindex, List.getElem?_concat_length] at h
    exact (Option.some.inj h).symm

/-- A module that is added has the next number. -/
theorem file?_add_new (b : Codebase) (m : SourceModule) :
    (b.add m).file? ⟨b.files.length⟩ = some m := by
  rw [file?, files_add]
  exact List.getElem?_concat_length

/-- The entries of a module that is added go behind those that are there. -/
theorem Lists.add {ε δ : Type} {entries new : List ε} {fileOf : ε → FileId} {definition : ε → δ}
    {definitions : SourceModule → List δ} (h : Lists b entries fileOf definition definitions)
    (hfile : ∀ e ∈ new, fileOf e = ⟨b.files.length⟩)
    (hnew : new.map definition = definitions m) :
    Lists (b.add m) (entries ++ new) fileOf definition definitions := by
  constructor
  · intro file m' hm'
    rw [List.filter_append]
    rcases file?_add_cases hm' with ⟨rfl, rfl⟩ | ⟨hne, hold⟩
    · have hnone : entries.filter (fun e => decide (fileOf e = ⟨b.files.length⟩)) = [] := by
        refine List.filter_eq_nil_iff.2 fun e he hsame => ?_
        obtain ⟨m, hm⟩ := h.has_file e he
        obtain ⟨hlt, -⟩ := List.getElem?_eq_some_iff.1 hm
        rw [of_decide_eq_true hsame] at hlt
        exact Nat.lt_irrefl _ hlt
      have hall : new.filter (fun e => decide (fileOf e = ⟨b.files.length⟩)) = new :=
        List.filter_eq_self.2 fun e he => decide_eq_true (hfile e he)
      rw [hnone, hall]
      exact hnew
    · have hnone : new.filter (fun e => decide (fileOf e = file)) = [] := by
        refine List.filter_eq_nil_iff.2 fun e he hsame => hne ?_
        rw [← of_decide_eq_true hsame, hfile e he]
      rw [hnone, List.append_nil]
      exact h.of_file file m' hold
  · intro e he
    rcases List.mem_append.1 he with he | he
    · obtain ⟨m', hm'⟩ := h.has_file e he
      exact ⟨m', file?_add hm'⟩
    · rw [hfile e he]
      exact ⟨m, file?_add_new b m⟩

/-- So do entries that hold no more than the file and a definition. -/
theorem Lists.add_map {ε δ : Type} {entries : List ε} {fileOf : ε → FileId} {definition : ε → δ}
    {definitions : SourceModule → List δ} (h : Lists b entries fileOf definition definitions)
    (m : SourceModule) {entry : δ → ε} (hfile : ∀ d, fileOf (entry d) = ⟨b.files.length⟩)
    (hdefinition : ∀ d, definition (entry d) = d) :
    Lists (b.add m) (entries ++ (definitions m).map entry) fileOf definition definitions := by
  refine h.add (fun e he => ?_) ?_
  · obtain ⟨d, -, rfl⟩ := List.mem_map.1 he
    exact hfile d
  · rw [List.map_map]
    exact List.map_id'' hdefinition _

/-- Adding the classes of a file lists them behind those that are there. -/
theorem foldl_addClass_entries (file : FileId) (module : String) (definitions : List ClassDef)
    (b : Codebase) :
    (definitions.foldl (addClass file module) b).config = b.config ∧
    (definitions.foldl (addClass file module) b).functions = b.functions ∧
    (definitions.foldl (addClass file module) b).assignments = b.assignments ∧
    ∃ new, (definitions.foldl (addClass file module) b).classes = b.classes ++ new ∧
      new.map ClassEntry.definition = definitions ∧
      ∀ c ∈ new, c.file = file ∧ c.qualifiedName = Dotted.qualify module c.definition.name := by
  induction definitions generalizing b with
  | nil =>
      exact ⟨rfl, rfl, rfl, [], (List.append_nil _).symm, rfl,
        fun c hc => absurd hc List.not_mem_nil⟩
  | cons d definitions ih =>
      obtain ⟨hconfig, hfunctions, hassignments, new, hclasses, hdefinitions, hall⟩ :=
        ih (addClass file module b d)
      refine ⟨hconfig, hfunctions, hassignments,
        ⟨(b.symbols.intern (Dotted.qualify module d.name) module .classType).1,
          Dotted.qualify module d.name, file, d⟩ :: new, ?_, ?_, ?_⟩
      · rw [List.foldl_cons, hclasses]
        exact List.append_assoc _ [_] _
      · rw [List.map_cons, hdefinitions]
      · exact List.forall_mem_cons.2 ⟨⟨rfl, rfl⟩, hall⟩

/-- The entries of a module are added in their order. -/
theorem Recorded.add (h : b.Recorded) (m : SourceModule) : (b.add m).Recorded := by
  obtain ⟨-, hfunctions, hassignments, new, hclasses, hdefinitions, hall⟩ :=
    foldl_addClass_entries ⟨b.files.length⟩ m.name m.definitions.classes b
  have hadd : (b.add m).classes = b.classes ++ new := hclasses
  refine ⟨?_, ?_, ?_, ?_⟩
  · rw [hadd]
    exact h.classes.add (fun c hc => (hall c hc).1) hdefinitions
  · have hlist : (b.add m).functions =
        b.functions ++ m.definitions.functions.map (⟨⟨b.files.length⟩, ·⟩) := by
      rw [← hfunctions]
      rfl
    rw [hlist]
    exact h.functions.add_map m (fun _ => rfl) fun _ => rfl
  · have hlist : (b.add m).assignments =
        b.assignments ++ m.definitions.assignments.map (⟨⟨b.files.length⟩, ·⟩) := by
      rw [← hassignments]
      rfl
    rw [hlist]
    exact h.assignments.add_map m (fun _ => rfl) fun _ => rfl
  · intro c hc m' hm'
    rw [hadd] at hc
    rcases List.mem_append.1 hc with hc | hc
    · obtain ⟨m'', hm''⟩ := h.classes.has_file c hc
      have hsame := Option.some.inj ((file?_add hm'').symm.trans hm')
      rw [← hsame]
      exact h.qualifiedName_eq c hc m'' hm''
    · obtain ⟨hfile, hname⟩ := hall c hc
      rw [hfile, file?_add_new] at hm'
      rw [← Option.some.inj hm']
      exact hname

/-- The entries of a codebase are those of its modules, in order. -/
theorem recorded_ofModules (config : Config) (modules : List SourceModule)
    (read : Source.TreeReader) :
    (ofModules config modules read).Recorded := by
  refine List.foldlRecOn modules add ?_ fun b hb m _ => hb.add m
  refine ⟨⟨?_, ?_⟩, ⟨?_, ?_⟩, ⟨?_, ?_⟩, ?_⟩
  · exact fun file m hm => nomatch hm
  · exact fun c hc => absurd hc List.not_mem_nil
  · exact fun file m hm => nomatch hm
  · exact fun f hf => absurd hf List.not_mem_nil
  · exact fun file m hm => nomatch hm
  · exact fun a ha => absurd ha List.not_mem_nil
  · exact fun c hc => absurd hc List.not_mem_nil

/-- Modules do not change the configuration. -/
theorem config_ofModules (config : Config) (modules : List SourceModule)
    (read : Source.TreeReader) :
    (ofModules config modules read).config = config := by
  refine List.foldlRecOn (motive := fun b : Codebase => b.config = config) modules add rfl ?_
  intro b hb m _
  obtain ⟨hconfig, -⟩ := foldl_addClass_entries ⟨b.files.length⟩ m.name m.definitions.classes b
  exact hconfig.trans hb

/-! ## Two orders of the same files -/

/-- Two handles of one file, in two codebases. -/
def SameFile (b b' : Codebase) (file file' : FileId) : Prop :=
  ∃ m, b.file? file = some m ∧ b'.file? file' = some m

/-- What two names refer to, in two codebases, is the same: the same definition of the same file, or
the same module, builtin or thing from outside. -/
inductive Alike (b b' : Codebase) : Entity → Entity → Prop where
  | classDef {id id' : ClassId} {c c' : ClassEntry} (hc : b.class? id = some c)
      (hc' : b'.class? id' = some c') (hfile : SameFile b b' c.file c'.file)
      (hdefinition : c.definition = c'.definition) : Alike b b' (.classDef id) (.classDef id')
  | function {id id' : FunctionId} {f f' : FunctionEntry} (hf : b.function? id = some f)
      (hf' : b'.function? id' = some f') (hfile : SameFile b b' f.file f'.file)
      (hdefinition : f.definition = f'.definition) : Alike b b' (.function id) (.function id')
  | assignment {id id' : AssignmentId} {a a' : AssignmentEntry} (ha : b.assignment? id = some a)
      (ha' : b'.assignment? id' = some a') (hfile : SameFile b b' a.file a'.file)
      (hdefinition : a.definition = a'.definition) : Alike b b' (.assignment id) (.assignment id')
  | module (name : String) : Alike b b' (.module name) (.module name)
  | external (name : String) : Alike b b' (.external name) (.external name)
  | builtin (name : String) : Alike b b' (.builtin name) (.builtin name)

/-- What two names are declared as, in two codebases, is the same. -/
inductive DeclaredAlike (b b' : Codebase) : Declared → Declared → Prop where
  | classDef {id id' : ClassId} (h : Alike b b' (.classDef id) (.classDef id')) :
      DeclaredAlike b b' (.classDef id) (.classDef id')
  | function {id id' : FunctionId} (h : Alike b b' (.function id) (.function id')) :
      DeclaredAlike b b' (.function id) (.function id')
  | assignment {id id' : AssignmentId} (h : Alike b b' (.assignment id) (.assignment id')) :
      DeclaredAlike b b' (.assignment id) (.assignment id')
  | imported (i : Import) : DeclaredAlike b b' (.imported i) (.imported i)

/-- The last definition of a file that passes a test is the same in both. -/
theorem Lists.rel_last {ε δ : Type} {entries entries' : List ε} {fileOf : ε → FileId}
    {definition : ε → δ} {definitions : SourceModule → List δ}
    (h : Lists b entries fileOf definition definitions)
    (h' : Lists b' entries' fileOf definition definitions) (hfile : SameFile b b' file file')
    (test : δ → Bool) :
    Option.Rel (fun i i' => ∃ e e', entries[i]? = some e ∧ entries'[i']? = some e' ∧
        SameFile b b' (fileOf e) (fileOf e') ∧ definition e = definition e')
      (lastIndex? entries fun e => fileOf e = file && test (definition e))
      (lastIndex? entries' fun e => fileOf e = file' && test (definition e)) := by
  obtain ⟨m, hm, hm'⟩ := hfile
  refine rel_through (rel_lastIndex? (h.of_file file m hm) test)
    (rel_lastIndex? (h'.of_file file' m hm') test) ?_
  rintro i i' d ⟨e, he, hfile, hd⟩ ⟨e', he', hfile', hd'⟩
  refine ⟨e, e', he, he', ⟨m, ?_, ?_⟩, hd.trans hd'.symm⟩
  · rw [hfile]
    exact hm
  · rw [hfile']
    exact hm'

/-- Two codebases of the same modules, whatever their order. -/
structure Shuffled (b b' : Codebase) : Prop where
  config_eq : b.config = b'.config
  recorded : b.Recorded
  recorded' : b'.Recorded
  moduleFile : ∀ name, Option.Rel (SameFile b b') (b.moduleFile? name) (b'.moduleFile? name)

namespace Shuffled

variable (h : Shuffled b b')

include h

/-- Both codebases have the same modules. -/
theorem hasModule_eq (name : String) : b.hasModule name = b'.hasModule name :=
  isSome_eq_of_rel (h.moduleFile name)

/-- In files that are the same, both find the same class at a path. -/
theorem rel_classAtPath? (hfile : SameFile b b' file file') (path : String) :
    Option.Rel (fun id id' => Alike b b' (.classDef id) (.classDef id'))
      (b.classAtPath? file path) (b'.classAtPath? file' path) := by
  refine rel_map (h.recorded.classes.rel_last h.recorded'.classes hfile
    fun d => decide (d.name = path)) ?_
  rintro i i' ⟨c, c', hc, hc', hsame, hdefinition⟩
  exact .classDef hc hc' hsame hdefinition

/-- In such files both find the same declaration of a name. -/
theorem rel_declared? (hfile : SameFile b b' file file') (name : String) :
    Option.Rel (DeclaredAlike b b') (b.declared? file name) (b'.declared? file' name) := by
  rw [declared?, declared?]
  refine rel_orElse ?_ (rel_orElse ?_ (rel_orElse ?_ ?_))
  · split
    · exact .none
    · exact rel_map (h.rel_classAtPath? hfile name) fun _ _ hclass => .classDef hclass
  · refine rel_map (h.recorded.functions.rel_last h.recorded'.functions hfile
      fun d => decide (d.name = name)) ?_
    rintro i i' ⟨f, f', hf, hf', hsame, hdefinition⟩
    exact .function (.function hf hf' hsame hdefinition)
  · refine rel_map (h.recorded.assignments.rel_last h.recorded'.assignments hfile
      fun d => decide (d.name = name)) ?_
    rintro i i' ⟨a, a', ha, ha', hsame, hdefinition⟩
    exact .assignment (.assignment ha ha' hsame hdefinition)
  · obtain ⟨m, hm, hm'⟩ := hfile
    rw [hm, hm']
    show Option.Rel (DeclaredAlike b b')
      ((m.definitions.imports.reverse.find? fun i => i.boundName = name).map .imported)
      ((m.definitions.imports.reverse.find? fun i => i.boundName = name).map .imported)
    cases m.definitions.imports.reverse.find? fun i => i.boundName = name with
    | none => exact .none
    | some i => exact .some (.imported i)

section Look

variable {look look' : FileId → String → Option Entity}
  (hlook : ∀ file file' name, SameFile b b' file file' →
    Option.Rel (Alike b b') (look file name) (look' file' name))

include hlook

/-- Both find the same member of a module. -/
theorem rel_memberOfModule (module name : String) :
    Option.Rel (Alike b b') (b.memberOfModule look module name)
      (b'.memberOfModule look' module name) := by
  rw [memberOfModule, memberOfModule, ← h.hasModule_eq]
  have hfile := h.moduleFile module
  generalize b.moduleFile? module = x at hfile ⊢
  generalize b'.moduleFile? module = x' at hfile ⊢
  cases hfile with
  | none =>
      dsimp only
      split
      · exact .some (.module _)
      · exact .some (.external _)
  | some hsame =>
      refine rel_orElse (hlook _ _ name hsame) ?_
      split
      · exact .some (.module _)
      · exact .none

/-- An import means the same in both. -/
theorem rel_importedEntity (m : SourceModule) (i : Import) :
    Option.Rel (Alike b b') (b.importedEntity look m i) (b'.importedEntity look' m i) := by
  rw [importedEntity, importedEntity]
  split
  · exact .none
  · exact .some (.module _)
  · exact h.rel_memberOfModule hlook _ _

end Look

/-- A name means the same in files that are the same: the induction is on the hops that are left. -/
theorem rel_entityIn (levels : Nat) (file file' : FileId) (name : String)
    (hfile : SameFile b b' file file') :
    Option.Rel (Alike b b') (b.entityIn levels file name) (b'.entityIn levels file' name) := by
  induction levels generalizing file file' name with
  | zero => exact .none
  | succ levels ih =>
      rw [entityIn, entityIn]
      have hdeclared := h.rel_declared? hfile name
      generalize b.declared? file name = x at hdeclared ⊢
      generalize b'.declared? file' name = x' at hdeclared ⊢
      cases hdeclared with
      | none => exact .none
      | some hdeclared =>
          cases hdeclared with
          | classDef halike => exact .some halike
          | function halike => exact .some halike
          | assignment halike => exact .some halike
          | imported i =>
              obtain ⟨m, hm, hm'⟩ := hfile
              dsimp only
              rw [hm, hm', Option.bind_some, Option.bind_some]
              exact h.rel_importedEntity ih m i

/-- Entities that are the same have the same members. -/
theorem rel_member {e e' : Entity} (he : Alike b b' e e') (name : String) :
    Option.Rel (Alike b b') (b.member e name) (b'.member e' name) := by
  cases he with
  | module module => exact h.rel_memberOfModule (h.rel_entityIn memberFileBound) module name
  | external outer => exact .some (.external _)
  | builtin name => exact .none
  | function => exact .none
  | assignment => exact .none
  | classDef hc hc' hfile hdefinition =>
      rw [member, member, hc, hc', Option.bind_some, Option.bind_some, hdefinition]
      exact rel_map (h.rel_classAtPath? hfile _) fun _ _ hclass => hclass

theorem rel_members {e e' : Entity} (he : Alike b b' e e') (names : List String) :
    Option.Rel (Alike b b') (b.members e names) (b'.members e' names) := by
  induction names generalizing e e' with
  | nil => exact .some he
  | cons name names ih => exact rel_bind (h.rel_member he name) fun _ _ hmember => ih hmember

/-- A dotted name means the same in both. -/
theorem rel_resolve (hfile : SameFile b b' file file') (dotted : String) :
    Option.Rel (Alike b b') (b.resolve file dotted) (b'.resolve file' dotted) := by
  rw [resolve, resolve]
  split
  · exact .none
  · next first rest _ =>
      split
      · exact .none
      · have hfirst : Option.Rel (Alike b b')
            (b.entityIn fileBound file first <|> b.builtinEntity first)
            (b'.entityIn fileBound file' first <|> b'.builtinEntity first) := by
          refine rel_orElse (h.rel_entityIn fileBound file file' first hfile) ?_
          rw [builtinEntity, builtinEntity, h.config_eq]
          split
          · exact .some (.builtin first)
          · exact .none
        generalize (b.entityIn fileBound file first <|> b.builtinEntity first) = x at hfirst ⊢
        generalize (b'.entityIn fileBound file' first <|> b'.builtinEntity first) = x' at hfirst ⊢
        cases hfirst with
        | none => exact .none
        | some he => exact h.rel_members he rest

/-- What means the same is known by the same name. -/
theorem qualifiedName_eq {e e' : Entity} (he : Alike b b' e e') :
    b.qualifiedName e = b'.qualifiedName e' := by
  rw [qualifiedName.eq_def, qualifiedName.eq_def]
  cases he with
  | classDef hc hc' hfile hdefinition =>
      obtain ⟨m, hm, hm'⟩ := hfile
      have hname := h.recorded.qualifiedName_eq _ (List.mem_of_getElem? hc) m hm
      have hname' := h.recorded'.qualifiedName_eq _ (List.mem_of_getElem? hc') m hm'
      dsimp only
      rw [hc, hc', Option.elim_some, Option.elim_some, hname, hname', hdefinition]
  | function hf hf' hfile hdefinition =>
      obtain ⟨m, hm, hm'⟩ := hfile
      dsimp only
      rw [hf, hf', Option.elim_some, Option.elim_some, hm, hm', hdefinition]
  | assignment ha ha' hfile hdefinition =>
      obtain ⟨m, hm, hm'⟩ := hfile
      dsimp only
      rw [ha, ha', Option.elim_some, Option.elim_some, hm, hm', hdefinition]
  | module name => rfl
  | external name => rfl
  | builtin name => rfl

end Shuffled

/-! ## Files are found in any order -/

section Perm

variable {modules modules' : List SourceModule} {key : SourceModule → String}

/-- Where no two modules have one key, the one with a key is found in any order. -/
theorem find?_key_of_perm (hperm : modules.Perm modules') (hkeys : (modules.map key).Nodup)
    (k : String) :
    modules.find? (fun m => key m = k) = modules'.find? fun m => key m = k := by
  have hkeys' : (modules'.map key).Nodup := (hperm.map key).nodup_iff.1 hkeys
  have hfound : ∀ {list : List SourceModule}, (list.map key).Nodup → ∀ m,
      list.find? (fun m => key m = k) = some m ↔ m ∈ list ∧ key m = k := by
    intro list hnodup m
    constructor
    · intro hm
      have hkey := List.find?_some hm
      exact ⟨List.mem_of_find?_eq_some hm, of_decide_eq_true hkey⟩
    · rintro ⟨hmem, hkey⟩
      cases hfind : list.find? fun m => key m = k with
      | none => exact absurd (decide_eq_true hkey) (List.find?_eq_none.1 hfind m hmem)
      | some m' =>
          have hkey' := List.find?_some hfind
          rw [List.inj_on_of_nodup_map hnodup (List.mem_of_find?_eq_some hfind) hmem
            ((of_decide_eq_true hkey').trans hkey.symm)]
  refine Option.ext fun m => ?_
  rw [hfound hkeys m, hfound hkeys' m, hperm.mem_iff]

/-- A key that tells modules apart finds the same file in every order. -/
theorem rel_findIdx?_of_perm (hfiles : b.files = modules) (hfiles' : b'.files = modules')
    (hperm : modules.Perm modules') (hkeys : (modules.map key).Nodup) (k : String) :
    Option.Rel (SameFile b b') ((b.files.findIdx? fun m => key m = k).map FileId.mk)
      ((b'.files.findIdx? fun m => key m = k).map FileId.mk) := by
  have hplace : ∀ b : Codebase, Option.Rel (fun file m => b.file? file = some m)
      ((b.files.findIdx? fun m => key m = k).map FileId.mk) (b.files.find? fun m => key m = k) := by
    intro b
    rw [List.find?_eq_bind_findIdx?_getElem?]
    cases hindex : b.files.findIdx? fun m => key m = k with
    | none => exact .none
    | some i =>
        obtain ⟨hlt, -⟩ := List.findIdx?_eq_some_iff_getElem.1 hindex
        rw [Option.bind_some, List.getElem?_eq_getElem hlt]
        exact .some (List.getElem?_eq_getElem hlt)
  have hplace' := hplace b'
  rw [hfiles', ← find?_key_of_perm hperm hkeys, ← hfiles, ← hfiles'] at hplace'
  exact rel_through (hplace b) hplace' fun _ _ m hm hm' => ⟨m, hm, hm'⟩

end Perm

end Codebase

namespace Project

open Codebase

variable {config : Config} {sources sources' : List (String × String)} {read : Source.TreeReader}

/-- Typing a codebase leaves its entries. -/
theorem recorded_ofCodebase {b : Codebase} (h : b.Recorded) : (ofCodebase b).Recorded := by
  obtain ⟨⟨hclasses, hclass⟩, ⟨hfunctions, hfunction⟩, ⟨hassignments, hassignment⟩, hnames⟩ := h
  exact ⟨⟨hclasses, hclass⟩, ⟨hfunctions, hfunction⟩, ⟨hassignments, hassignment⟩, hnames⟩

/-- The entries of a project are those of its files, in order. -/
theorem recorded_ofSources (config : Config) (sources : List (String × String))
    (read : Source.TreeReader) :
    (ofSources config sources read).Recorded :=
  recorded_ofCodebase (recorded_ofModules config _ _)

/-- Files of which no two have one module name make codebases of the same modules in every order. -/
theorem shuffled_of_perm (hperm : sources.Perm sources')
    (hnames : ((ofSources config sources read).files.map SourceModule.name).Nodup) :
    Shuffled (ofSources config sources read).toCodebase
      (ofSources config sources' read).toCodebase where
  config_eq := (config_ofModules config _ _).trans (config_ofModules config _ _).symm
  recorded := recorded_ofSources config sources read
  recorded' := recorded_ofSources config sources' read
  moduleFile := rel_findIdx?_of_perm (files_ofSources config sources)
    (files_ofSources config sources') (hperm.map _) (files_ofSources config sources ▸ hnames)

/-- Where no two files have one path, the same file is found at a path in every order. -/
theorem fileByPath?_of_perm (hperm : sources.Perm sources')
    (hpaths : ((ofSources config sources read).files.map fun m => FilePath.normalized m.path).Nodup)
    (path : String) :
    Option.Rel
      (SameFile (ofSources config sources read).toCodebase
        (ofSources config sources' read).toCodebase)
      ((ofSources config sources read).fileByPath? path)
      ((ofSources config sources' read).fileByPath? path) :=
  rel_findIdx?_of_perm (files_ofSources config sources) (files_ofSources config sources')
    (hperm.map _) (files_ofSources config sources ▸ hpaths) (FilePath.normalized path)

/-- In whatever order files are given, of which no two have one module name, a dotted name means the
same in a file and is known by the same name. -/
theorem resolve_of_perm (hperm : sources.Perm sources')
    (hnames : ((ofSources config sources read).files.map SourceModule.name).Nodup)
    {file file' : FileId}
    (hfile : SameFile (ofSources config sources read).toCodebase
      (ofSources config sources' read).toCodebase file file') (dotted : String) :
    Option.Rel (fun e e' =>
        Alike (ofSources config sources read).toCodebase
          (ofSources config sources' read).toCodebase e e' ∧
        (ofSources config sources read).qualifiedName e =
          (ofSources config sources' read).qualifiedName e')
      ((ofSources config sources read).resolve file dotted)
      ((ofSources config sources' read).resolve file' dotted) := by
  have hshuffled := shuffled_of_perm hperm hnames
  exact rel_imp (hshuffled.rel_resolve hfile dotted) fun e e' he =>
    ⟨he, hshuffled.qualifiedName_eq he⟩

/-! ## A symbol keeps the kind that it has first -/

/-- A file that imports a type from its module. -/
def importsMember : String × String :=
  ("app.py", "from pkg.sub.ids import UserId\ndef g(x: UserId): pass\n")

/-- A file that names the type by the path of its module. -/
def importsModule : String × String :=
  ("main.py", "import pkg.sub.ids\ndef f(a: pkg.sub.ids.UserId): pass\n")

/-- The file of the type, in packages that have no file of their own. -/
def declaresType : String × String :=
  ("pkg/sub/ids.py", "UserId = NewType('UserId', int)\n")

/-- Where the symbol of the type comes from, in a project of files. -/
def typeOrigin (sources : List (String × String)) : Option Bucket :=
  ((ofSources .default sources).symbols.find? "pkg.sub.ids.UserId").bind
    (ofSources .default sources).provenance

/-- The type is the project's own if the file that imports it comes first, and a third party's if
the file that names it by its path does. -/
theorem provenance_of_order :
    typeOrigin [importsMember, importsModule, declaresType] = some .own ∧
    typeOrigin [importsModule, importsMember, declaresType] = some .thirdParty := by
  constructor
  · decide +kernel
  · decide +kernel

end Project

end CallFill
