import CallFill.Proofs.Codebase.ConstructedReceiver
import CallFill.Proofs.Codebase.Lookup
import CallFill.Proofs.Codebase.SymbolClasses
import CallFill.Proofs.Definition.CollectedClasses
import Mathlib.Data.List.TakeWhile

/-!
# The class that a call stands in

A call on `self` or `cls` is looked up in the class at the path that the call is recorded with
(`Project.callee?_of_receiver`). The path is that of the innermost class definition around the call,
and the class at this path is read off some class definition of the file
(`Project.readOff_of_classAtPath?`). The definitions that classes are read off do not include those
in the bodies of functions, though, nor those in loops. Where no two classes of the file have one
path, the class is read off the definition that the call stands in exactly if any class is, and so
it always is in a file all of whose class definitions are read (`Project.readOff_innermost`).

A class in a function has the path of a class of this name in the module, and its calls on `self`
lead to the methods of that one (`Project.not_readsEnclosing`).
-/

namespace CallFill

open Source SyntaxTree Outline Definition Codebase

/-! ## The innermost class -/

/-- The innermost class definition among some blocks, with the blocks around it. -/
def Source.SyntaxTree.innermostClass (blocks : List SyntaxTree) : List SyntaxTree :=
  blocks.dropWhile fun b => b.kind != .classDefinition

section Innermost

variable {source : List Char} {root t c b : SyntaxTree} {blocks outer : List SyntaxTree}
  {path : String}

theorem Outline.classPath_innermostClass (blocks : List SyntaxTree) :
    classPath source (innermostClass blocks) = classPath source blocks := by
  induction blocks with
  | nil => rfl
  | cons b outer ih =>
      by_cases hb : b.kind = .classDefinition
      · rw [innermostClass, List.dropWhile_cons_of_neg (by simp [hb])]
      · rw [classPath_cons_of_ne hb, innermostClass, List.dropWhile_cons_of_pos (by simpa using hb)]
        exact ih

/-- With a class path there is a class. -/
theorem Outline.exists_innermostClass (h : classPath source blocks = some path) :
    ∃ t outer, innermostClass blocks = t :: outer ∧ t.kind = .classDefinition := by
  cases hinner : innermostClass blocks with
  | nil =>
      rw [← classPath_innermostClass, hinner] at h
      cases h
  | cons t outer =>
      refine ⟨t, outer, rfl, ?_⟩
      have hhead :=
        List.head?_dropWhile_not (fun b : SyntaxTree => b.kind != .classDefinition) blocks
      rw [innermostClass] at hinner
      rw [hinner] at hhead
      simpa using hhead

/-- A block around a part of a tree is the tree or around it. -/
theorem Source.SyntaxTree.suffix_of_blocksOf (h : b :: outer <:+ blocksOf blocks t c) :
    (b = t ∧ outer = blocks) ∨ b :: outer <:+ blocks := by
  have hcons : b :: outer <:+ t :: blocks → (b = t ∧ outer = blocks) ∨ b :: outer <:+ blocks :=
    fun hcons => (List.suffix_cons_iff.1 hcons).imp_left List.cons.inj
  rw [blocksOf] at h
  split at h
  · split at h
    · exact hcons h
    · exact Or.inr h
  · split at h
    · exact hcons h
    · exact Or.inr h
  · split at h
    · exact Or.inr h
    · exact hcons h
  · split at h
    · exact Or.inr (h.trans (List.tail_suffix blocks))
    · exact Or.inr h
  · split at h
    · exact hcons h
    · exact Or.inr h

/-- The blocks around a part, from one of them on, are that block and the blocks around it. -/
theorem Source.SyntaxTree.Stands.stands_of_suffix (h : Stands root blocks t)
    (hsuffix : b :: outer <:+ blocks) : b = root ∨ Stands root outer b := by
  induction h with
  | root => exact Or.inl (List.mem_singleton.1 (hsuffix.subset List.mem_cons_self))
  | part ht _ ih =>
      rcases suffix_of_blocksOf hsuffix with ⟨rfl, rfl⟩ | hsuffix
      · exact Or.inr ht
      · exact ih hsuffix
  | parameter _ _ _ _ _ ih => exact ih hsuffix

end Innermost

/-! ## The class at the path of a call -/

/-- No two classes of a text have one path. -/
def Definition.DistinctPaths (text : List Char) : Prop :=
  ((ofStatements text (parse text).children).classes.map ClassDef.name).Nodup

instance (text : List Char) : Decidable (Definition.DistinctPaths text) :=
  inferInstanceAs (Decidable (List.Nodup _))

/-- Some class of the text is read off the innermost class definition among the blocks. -/
def Definition.ReadsInnermost (text : List Char) (blocks : List SyntaxTree) : Prop :=
  ∃ k ∈ collectedIn text (parse text), k.tree :: k.around = innermostClass blocks

/-- The definitions that classes are read off can be told from their paths, if these differ. -/
theorem Definition.DistinctPaths.eq_of_path_eq {text : List Char} (h : DistinctPaths text)
    {k k' : Collected} (hk : k ∈ collectedIn text (parse text))
    (hk' : k' ∈ collectedIn text (parse text)) (hpath : k.path = k'.path) : k = k' := by
  rw [DistinctPaths, classes_ofStatements, List.map_map] at h
  refine List.inj_on_of_nodup_map h hk hk' ?_
  rw [Function.comp_apply, Function.comp_apply, Collected.name_read, Collected.name_read, hpath]

namespace Project

variable {config : Config} {sources : List (String × String)} {c : CallRecord}

/-- The class of a project is read off this definition in a text. -/
def ReadOff (config : Config) (sources : List (String × String)) (text : List Char) (id : ClassId)
    (k : Collected) : Prop :=
  k ∈ collectedIn text (parse text) ∧
    ((ofSources config sources).class? id).map ClassEntry.definition = some (k.read text)

/-- The class at a path in a file is read off a class definition of its text, at this path. -/
theorem exists_readOff_of_classAtPath? {file : FileId} {path text p : String} {id : ClassId}
    (hm : (ofSources config sources).file? file = some (SourceModule.ofText path text))
    (hid : (ofSources config sources).classAtPath? file p = some id) :
    ∃ k, ReadOff config sources text.toList id k ∧ k.path = p := by
  obtain ⟨entry, hentry, hfile, hname⟩ := exists_of_classAtPath? hid
  have hclasses : ((ofSources config sources).classes.filter fun e => e.file = file).map
      ClassEntry.definition = (collectedIn text.toList (parse text.toList)).map
        (Collected.read text.toList) :=
    ((recorded_ofSources config sources _).classes.of_file file _ hm).trans
      (classes_ofStatements text.toList (parse text.toList))
  have hlisted : entry.definition ∈ (collectedIn text.toList (parse text.toList)).map
      (Collected.read text.toList) := by
    rw [← hclasses]
    refine List.mem_map_of_mem (List.mem_filter.2 ⟨List.mem_of_getElem? hentry, ?_⟩)
    exact decide_eq_true hfile
  obtain ⟨k, hk, hread⟩ := List.mem_map.1 hlisted
  refine ⟨k, ⟨hk, ?_⟩, ?_⟩
  · rw [hentry, hread]
    rfl
  · rw [← Collected.name_read text.toList k, hread, hname]

/-- **The class at the path of a call.** A call stands in blocks of the text of its file, and its
path is that of the innermost class definition among them. The class at this path in the file is
read off a class definition of the text. If no other class of the text has the path, then this is
the innermost definition around the call, provided that any class is read off that one. -/
theorem readOff_of_classAtPath? (h : c ∈ (ofSources config sources).calls) :
    ∃ path text, (path, text) ∈ sources ∧
      (ofSources config sources).file? c.site.file = some (SourceModule.ofText path text) ∧
      ∃ blocks, c.StandsIn text.toList blocks ∧
        c.enclosingClass = classPath text.toList blocks ∧
        ∀ p id, c.enclosingClass = some p →
          (ofSources config sources).classAtPath? c.site.file p = some id →
          ∃ k, ReadOff config sources text.toList id k ∧ k.path = p ∧
            (DistinctPaths text.toList → (k.tree :: k.around = innermostClass blocks ↔
              ReadsInnermost text.toList blocks)) := by
  obtain ⟨m, hm, d, hd, base, hc, -⟩ := (numbered_ofSources config sources).recorded c h
  obtain ⟨path, text, hsource, rfl⟩ := exists_source_of_file? hm
  obtain ⟨blocks, t, here, hstands, hkind, hcall, hclass⟩ :=
    named_ofTree text.toList (kind_parse text.toList) d hd
  obtain ⟨hstart, hstop, -⟩ := extent_of_callOf? hcall
  have henclosing : c.enclosingClass = classPath text.toList blocks := by
    rw [← hclass, hc]
    rfl
  refine ⟨path, text, hsource, hm, blocks, ⟨t, hstands, hkind, ?_⟩, henclosing, ?_⟩
  · rw [hc]
    exact ⟨hstart, hstop⟩
  · intro p id hp hid
    obtain ⟨k, hread, hpath⟩ := exists_readOff_of_classAtPath? hm hid
    refine ⟨k, hread, hpath, fun hdistinct => ⟨fun heq => ⟨k, hread.1, heq⟩, ?_⟩⟩
    rintro ⟨k', hk', hinner⟩
    have hplaced := (isPlaced_collectedIn text.toList k' hk').classPath_eq
    rw [hinner, classPath_innermostClass, ← henclosing, hp] at hplaced
    rw [hdistinct.eq_of_path_eq hread.1 hk' (hpath.trans (Option.some.inj hplaced))]
    exact hinner

/-- The class at the path of a call is read off the innermost class definition around the call. -/
def ReadsAround (config : Config) (sources : List (String × String)) (text : List Char)
    (c : CallRecord) (id : ClassId) : Prop :=
  ∃ blocks, c.StandsIn text blocks ∧
    ∃ k, ReadOff config sources text id k ∧ k.tree :: k.around = innermostClass blocks

/-- Where all class definitions of the file of a call are read, and no two classes have one path,
the class at the path of the call is the one that the call stands in. -/
theorem readOff_innermost (h : c ∈ (ofSources config sources).calls) {path text p : String}
    {id : ClassId}
    (hm : (ofSources config sources).file? c.site.file = some (SourceModule.ofText path text))
    (hdistinct : DistinctPaths text.toList)
    (hall : ∀ outer t, Stands (parse text.toList) outer t → t.kind = .classDefinition →
      ∃ k ∈ collectedIn text.toList (parse text.toList), k.tree = t ∧ k.around = outer)
    (hp : c.enclosingClass = some p)
    (hid : (ofSources config sources).classAtPath? c.site.file p = some id) :
    ReadsAround config sources text.toList c id := by
  obtain ⟨path', text', -, hm', blocks, hstands, henclosing, hread⟩ := readOff_of_classAtPath? h
  have hmodule : SourceModule.ofText path' text' = SourceModule.ofText path text :=
    Option.some.inj (hm'.symm.trans hm)
  obtain rfl : text' = text := congrArg SourceModule.text hmodule
  obtain ⟨k, hk, -, hiff⟩ := hread p id hp hid
  refine ⟨blocks, hstands, k, hk, (hiff hdistinct).2 ?_⟩
  -- the innermost definition is a part of the text, and so a class is read off it
  obtain ⟨t, ht, -⟩ := hstands
  obtain ⟨b, outer, hinner, hkind⟩ := exists_innermostClass (henclosing.symm.trans hp)
  have hsuffix : b :: outer <:+ blocks := hinner ▸ List.dropWhile_suffix _
  have hstands : Stands (parse text'.toList) outer b := by
    rcases ht.stands_of_suffix hsuffix with rfl | hstands
    · rw [kind_parse] at hkind
      cases hkind
    · exact hstands
  obtain ⟨k', hk', rfl, rfl⟩ := hall outer b hstands hkind
  exact ⟨k', hk', hinner.symm⟩

/-! ## Calls on `self` and `cls` -/

/-- A callee of names and dots alone constructs no instance. -/
theorem constructedMethod?_of_names {text : List Char}
    (h : ∀ c ∈ text, (Project.isNameChar c || c == '.') = true) :
    constructedMethod? text = none := by
  have hall : text.takeWhile (fun c => Project.isNameChar c || c == '.') = text :=
    List.takeWhile_eq_self_iff.2 h
  rw [constructedMethod?]
  dsimp only
  rw [hall, List.drop_length]
  split
  · next hblank => cases hblank
  · rfl

/-- A call on `self` or `cls` is answered with the method of the class at its path. -/
theorem callee?_of_receiver (h : c ∈ (ofSources config sources).calls) {receiver method p : String}
    {r : Receiver} {id : ClassId} (hcallee : IsMethodOf c.site receiver method)
    (hr : receiverOf? receiver = some r)
    (hmethod : ∀ d ∈ method.toList, Project.isNameChar d = true) (hp : c.enclosingClass = some p)
    (hid : (ofSources config sources).classAtPath? c.site.file p = some id) :
    (ofSources config sources).callee? c.site =
      (ofSources config sources).methodSignature? id method r := by
  obtain ⟨htext, hdot⟩ := hcallee
  have hreceiver : ∀ d ∈ receiver.toList, Project.isNameChar d = true := by
    rw [receiverOf?] at hr
    split at hr
    · next hself =>
        rw [hself]
        exact List.all_eq_true.1 rfl
    · split at hr
      · next hcls =>
          rw [hcls]
          exact List.all_eq_true.1 rfl
      · cases hr
  -- nothing but names and dots is called, so no new instance is
  have hnone : constructedMethod? (Dotted.below receiver method).toList = none := by
    refine constructedMethod?_of_names fun d hd => ?_
    simp only [Dotted.below, String.toList_append, List.mem_append] at hd
    rcases hd with (hd | hd) | hd
    · rw [hreceiver d hd, Bool.true_or]
    · rw [List.mem_singleton.1 hd]
      rfl
    · rw [hmethod d hd, Bool.true_or]
  rw [callee?]
  dsimp only
  rw [htext, hnone]
  dsimp only
  rw [splitLast?_below hdot, Option.bind_some, hr]
  show (ofSources config sources).enclosingMethod? c.site method r = _
  rw [enclosingMethod?, call?_of_mem h, Option.bind_some, hp, Option.bind_some, hid]
  rfl

/-- In every module without syntax errors whose classes have different paths, the class at the path
of a call is the one that the call stands in. -/
def ReadsEnclosing (config : Config) (sources : List (String × String)) : Prop :=
  ∀ c ∈ (ofSources config sources).calls, ∀ path text p id,
    (ofSources config sources).file? c.site.file = some (SourceModule.ofText path text) →
    (parse text.toList).hasError = false → DistinctPaths text.toList →
    c.enclosingClass = some p →
    (ofSources config sources).classAtPath? c.site.file p = some id →
    ReadsAround config sources text.toList c id

/-- A class in the body of a function, under the name of a class of the module. -/
def logs : String :=
  "class Log:\n    def put(self, x): pass\n\n\ndef f():\n    class Log:\n" ++
  "        def put(self): self.put()\n"

/-- The call `self.put()` in the inner class leads to the method of the outer one. -/
theorem not_readsEnclosing :
    (parse logs.toList).hasError = false ∧ DistinctPaths logs.toList ∧
    ((ofSources .default [("main.py", logs)]).calls.map fun c =>
      (c.site.callee, c.enclosingClass, c.site.file)) = [("self.put", some "Log", ⟨0⟩)] ∧
    ((ofSources .default [("main.py", logs)]).calls.head?.bind fun c =>
      ((ofSources .default [("main.py", logs)]).callee? c.site).map fun s =>
        s.parameters.map Parameter.name) = some ["x"] ∧
    ¬ ReadsEnclosing .default [("main.py", logs)] := by
  have hcalls : ((ofSources .default [("main.py", logs)]).calls.map fun c =>
      (c.site.callee, c.enclosingClass, c.site.file)) = [("self.put", some "Log", ⟨0⟩)] := by
    decide +kernel
  have hm : (ofSources .default [("main.py", logs)]).file? ⟨0⟩ =
      some (SourceModule.ofText "main.py" logs) := by
    rw [file?, files_ofSources]
    rfl
  have hid : (ofSources .default [("main.py", logs)]).classAtPath? ⟨0⟩ "Log" = some ⟨0⟩ := by
    decide +kernel
  -- the one class that is read starts the module, and the call stands in another
  have hread : (collectedIn logs.toList (parse logs.toList)).map (fun k => k.tree.start) = [0] := by
    decide +kernel
  have hparts : ∀ p ∈ standing [parse logs.toList] (parse logs.toList),
      (p.2.role = some .parameters → p.2.kind = .parameters) ∧
      (p.2.kind = .call → (innermostClass p.1).head?.map SyntaxTree.start ≠ some 0) := by
    decide +kernel
  have hdistinct : DistinctPaths logs.toList := by decide +kernel
  have herror : (parse logs.toList).hasError = false := by decide +kernel
  refine ⟨herror, hdistinct, hcalls, by decide +kernel, ?_⟩
  intro hright
  have hfirst : (("self.put", some "Log", ⟨0⟩) : String × Option String × FileId) ∈
      (ofSources .default [("main.py", logs)]).calls.map fun c =>
        (c.site.callee, c.enclosingClass, c.site.file) := by
    rw [hcalls]
    exact List.mem_cons_self
  obtain ⟨c, hc, hrecord⟩ := List.mem_map.1 hfirst
  obtain ⟨-, hrecord⟩ := Prod.mk.inj hrecord
  obtain ⟨henclosing, hfile⟩ := Prod.mk.inj hrecord
  obtain ⟨blocks, ⟨t, ht, hkind, -⟩, k, ⟨hk, -⟩, hinner⟩ :=
    hright c hc "main.py" logs "Log" ⟨0⟩ (by rw [hfile, hm]) herror hdistinct henclosing
      (by rw [hfile, hid])
  have hstands := ht.mem_standing fun p hp => (hparts p hp).1
  have houtside : k.tree.start ∈
      (collectedIn logs.toList (parse logs.toList)).map fun k => k.tree.start :=
    List.mem_map_of_mem hk
  rw [hread, List.mem_singleton] at houtside
  refine (hparts _ hstands).2 hkind ?_
  rw [← hinner, List.head?_cons, Option.map_some, houtside]

end Project

end CallFill
