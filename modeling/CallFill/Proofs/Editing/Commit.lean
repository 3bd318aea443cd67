import CallFill.Proofs.Editing.CallEdits

/-!
# What a commit leaves

The edits of a transaction are computed on the texts as they were, and every one of them fits its
text: it takes up whole characters between the parentheses of a call, or stands where new lines of
imports go (`Project.fits_of_editsOf`). Edits of one file that lie apart are then made at once, in
whatever order they were asked for, and a commit of such edits succeeds and leaves the splice of
each text (`Project.commitEdits_of_apart`). Lying apart is needed: calls stand inside of calls, and
where one edit overlaps another the later one is made at offsets that the earlier has moved
(`Project.commitEdits_of_nested`).
-/

namespace CallFill

open Source Text

section Steps

variable {α β ε : Type}

/-- Two steps succeed exactly if the first does and the second does on its result. -/
theorem bind_eq_ok_iff {x : Except ε α} {f : α → Except ε β} {b : β} :
    (x >>= f) = .ok b ↔ ∃ a, x = .ok a ∧ f a = .ok b := by
  constructor
  · intro h
    cases x with
    | error err => exact nomatch h
    | ok a => exact ⟨a, rfl, h⟩
  · rintro ⟨a, rfl, h⟩
    exact h

theorem eq_ok_of_toOption {x : Except ε α} {a : α} (h : x.toOption = some a) : x = .ok a := by
  cases x with
  | error err => exact nomatch h
  | ok b => rw [Option.some.inj h]

/-- Steps for a list succeed exactly if all of them do. -/
theorem mapM_cons_eq_ok_iff {f : α → Except ε β} {a : α} {as : List α} {results : List β} :
    (a :: as).mapM f = .ok results ↔
      ∃ b bs, f a = .ok b ∧ as.mapM f = .ok bs ∧ results = b :: bs := by
  rw [List.mapM_cons, bind_eq_ok_iff]
  constructor
  · rintro ⟨b, hb, hrest⟩
    obtain ⟨bs, hbs, hresults⟩ := bind_eq_ok_iff.1 hrest
    exact ⟨b, bs, hb, hbs, (Except.ok.inj hresults).symm⟩
  · rintro ⟨b, bs, hb, hbs, rfl⟩
    exact ⟨b, hb, bind_eq_ok_iff.2 ⟨bs, hbs, rfl⟩⟩

/-- Each result of a list of steps is that of one of them. -/
theorem exists_of_mem_mapM {f : α → Except ε β} {as : List α} {bs : List β} {b : β}
    (h : as.mapM f = .ok bs) (hb : b ∈ bs) : ∃ a ∈ as, f a = .ok b := by
  induction as generalizing bs with
  | nil =>
      rw [← Except.ok.inj h] at hb
      exact absurd hb List.not_mem_nil
  | cons a as ih =>
      obtain ⟨first, rest, hfirst, hrest, rfl⟩ := mapM_cons_eq_ok_iff.1 h
      rcases List.mem_cons.1 hb with rfl | hb
      · exact ⟨a, List.mem_cons_self, hfirst⟩
      · obtain ⟨a', ha', heq⟩ := ih hrest hb
        exact ⟨a', List.mem_cons_of_mem a ha', heq⟩

/-- Steps that give each element its result succeed exactly if every one does. -/
theorem mapM_keyed_eq_ok_iff {f : α → Except ε β} {as : List α} {entries : List (α × β)} :
    (as.mapM fun a => do return (a, ← f a)) = .ok entries ↔
      entries.map Prod.fst = as ∧ ∀ entry ∈ entries, f entry.1 = .ok entry.2 := by
  induction as generalizing entries with
  | nil =>
      constructor
      · intro h
        rw [← Except.ok.inj h]
        exact ⟨rfl, fun entry hentry => absurd hentry List.not_mem_nil⟩
      · rintro ⟨hkeys, _⟩
        rw [List.map_eq_nil_iff.1 hkeys]
        rfl
  | cons a as ih =>
      rw [mapM_cons_eq_ok_iff]
      constructor
      · rintro ⟨entry, rest, hentry, hrest, rfl⟩
        obtain ⟨b, hb, heq⟩ := bind_eq_ok_iff.1 hentry
        obtain ⟨hkeys, hall⟩ := ih.1 hrest
        rw [← Except.ok.inj heq]
        exact ⟨by rw [List.map_cons, hkeys], List.forall_mem_cons.2 ⟨hb, hall⟩⟩
      · rintro ⟨hkeys, hall⟩
        obtain ⟨⟨key, b⟩, rest, rfl, rfl, hrest⟩ := List.map_eq_cons_iff.1 hkeys
        obtain ⟨hb, hall⟩ := List.forall_mem_cons.1 hall
        exact ⟨_, rest, bind_eq_ok_iff.2 ⟨b, hb, rfl⟩, ih.2 ⟨hrest, hall⟩, rfl⟩

/-- Where each element has something of its own, they can be listed with it. -/
theorem exists_keyed {P : α → β → Prop} {as : List α} (h : ∀ a ∈ as, ∃ b, P a b) :
    ∃ entries : List (α × β), entries.map Prod.fst = as ∧ ∀ entry ∈ entries, P entry.1 entry.2 := by
  induction as with
  | nil => exact ⟨[], rfl, fun entry hentry => absurd hentry List.not_mem_nil⟩
  | cons a as ih =>
      obtain ⟨b, hb⟩ := h a List.mem_cons_self
      obtain ⟨entries, hkeys, hall⟩ := ih fun a' ha' => h a' (List.mem_cons_of_mem a ha')
      exact ⟨(a, b) :: entries, by rw [List.map_cons, hkeys], List.forall_mem_cons.2 ⟨hb, hall⟩⟩

end Steps

namespace TextEdit

variable {edits : List TextEdit} {a b : TextEdit}

/-- Two edits of different ranges, one of which ends before the other starts or where it starts. -/
def Apart (a b : TextEdit) : Prop :=
  (a.stop ≤ b.start ∨ b.stop ≤ a.start) ∧ (a.start, a.stop) ≠ (b.start, b.stop)

theorem Apart.symm (h : a.Apart b) : b.Apart a :=
  ⟨h.1.symm, h.2.symm⟩

/-- Edits in the order of the text. -/
def inTextOrder (edits : List TextEdit) : List TextEdit :=
  (edits.mergeSort comesFirst).reverse

/-- Putting edits in the order of the text leaves out none. -/
theorem perm_inTextOrder (edits : List TextEdit) : (inTextOrder edits).Perm edits :=
  (List.reverse_perm _).trans (List.mergeSort_perm _ _)

/-- In the order of the text, each of some edits that lie apart ends before the next starts. -/
theorem pairwise_inTextOrder (hle : ∀ e ∈ edits, e.start ≤ e.stop) (h : edits.Pairwise Apart) :
    (inTextOrder edits).Pairwise fun a b => a.stop ≤ b.start := by
  have hsorted := List.pairwise_reverse.2
    (List.pairwise_mergeSort comesFirst_trans comesFirst_total edits)
  have hapart := ((perm_inTextOrder edits).pairwise_iff Apart.symm).2 h
  refine (hsorted.and hapart).imp_of_mem ?_
  intro a b ha hb hab
  have hafter := comesFirst_iff.1 hab.1
  have hstop := hle b ((perm_inTextOrder edits).mem_iff.1 hb)
  rcases hab.2.1 with hbefore | hbefore
  · exact hbefore
  · omega

/-- Edits listed from the last to the first are made in the order of the list. -/
theorem applyAll_of_pairwise {text : String}
    (h : edits.Pairwise fun a b => comesFirst a b = true) :
    applyAll text edits = (applyInOrder text.toList edits).map String.ofList := by
  rw [applyAll, List.mergeSort_of_pairwise h]

/-- Edits that fit a text and lie apart are made at once, in whatever order they are listed. -/
theorem exists_spliced_of_apart {text : String} (hfits : ∀ e ∈ edits, e.Fits text.toList)
    (h : edits.Pairwise Apart) :
    ∃ result, Spliced 0 text.toList (inTextOrder edits) result ∧
      applyAll text edits = .ok (String.ofList result) := by
  have hperm := perm_inTextOrder edits
  have hordered := pairwise_inTextOrder (fun e he => (hfits e he).start_le_stop) h
  obtain ⟨result, hresult⟩ := exists_spliced [] (fun e he => hfits e (hperm.mem_iff.1 he))
    (fun _ _ => Nat.zero_le _) hordered
  have hranges := ((hperm.pairwise_iff Apart.symm).2 h).imp fun hab => hab.2
  exact ⟨result, hresult, hresult.applyAll_eq hranges hperm.symm⟩

end TextEdit

open TextEdit

namespace Project

variable {p : Project} {t : PendingEdits} {edits : List (FileId × TextEdit)}
  {documents texts : KeyedList FileId String} {file : FileId}

/-- The edits of one file. -/
def editsIn (edits : List (FileId × TextEdit)) (file : FileId) : List TextEdit :=
  (edits.filter fun e => e.1 = file).map (·.2)

/-- The edits of a file are those asked for in it. -/
theorem mem_editsIn {e : TextEdit} : e ∈ editsIn edits file ↔ (file, e) ∈ edits := by
  simp [editsIn]

/-! ## The parts of a commit -/

/-- Edits are asked for calls of the project. -/
theorem recordOf_eq_ok_iff {id : CallId} {c : CallRecord} :
    p.recordOf id = .ok c ↔ p.call? id = some c := by
  rw [recordOf]
  cases p.call? id <;> simp

/-- Edits are asked for files of the project. -/
theorem moduleOf_eq_ok_iff {m : SourceModule} :
    p.moduleOf file = .ok m ↔ p.file? file = some m := by
  rw [moduleOf]
  cases p.file? file <;> simp

/-- A text is edited exactly if its file has no document yet and takes the edits. -/
theorem editedText_eq_ok_iff {ofFile : List TextEdit} {new : String} :
    p.editedText documents file ofFile = .ok new ↔ KeyedList.has documents file = false ∧
      ∃ m, p.file? file = some m ∧ applyAll m.text ofFile = .ok new := by
  rw [editedText]
  cases hhas : KeyedList.has documents file with
  | true => simp [bind, Except.bind, throw, throwThe, MonadExceptOf.throw]
  | false =>
      rw [if_neg Bool.false_ne_true]
      show (p.moduleOf file >>= fun m => applyAll m.text ofFile) = .ok new ↔ _
      rw [bind_eq_ok_iff]
      simp [moduleOf_eq_ok_iff]

/-- A transaction leaves the edited texts of the files that its edits reach, one for each. -/
theorem editedTexts_eq_ok_iff :
    p.editedTexts documents t = .ok texts ↔ ∃ edits, p.editsOf t = .ok edits ∧
      KeyedList.keys texts = dedupBy id (edits.map (·.1)) ∧
      ∀ entry ∈ texts,
        p.editedText documents entry.1 (editsIn edits entry.1) = .ok entry.2 := by
  rw [editedTexts, bind_eq_ok_iff]
  refine exists_congr fun edits => and_congr_right fun _ => ?_
  exact mapM_keyed_eq_ok_iff

/-- A commit leaves the edited texts beside the documents that were there. -/
theorem commitEdits_of_editedTexts (h : p.editedTexts documents t = .ok texts) :
    p.commitEdits ⟨some t, documents⟩ =
      (.ok (), { documents := KeyedList.putAll documents texts }) := by
  rw [commitEdits]
  dsimp only
  rw [h]

/-- A commit does not reach a file that has a document already. -/
theorem has_eq_false_of_mem_editedTexts (h : p.editedTexts documents t = .ok texts)
    {entry : FileId × String} (hentry : entry ∈ texts) :
    KeyedList.has documents entry.1 = false := by
  obtain ⟨edits, _, _, hall⟩ := editedTexts_eq_ok_iff.1 h
  exact (editedText_eq_ok_iff.1 (hall entry hentry)).1

/-- The edits of a transaction replace what stands between the parentheses of calls, append to
calls, or add import lines. -/
theorem mem_editsOf (h : p.editsOf t = .ok edits) {e : FileId × TextEdit} (he : e ∈ edits) :
    (∃ c ∈ p.calls, ∃ inner, e = (c.site.file, c.replacement inner)) ∨
    (∃ c ∈ p.calls, ∃ m arguments, p.file? c.site.file = some m ∧
      e = (c.site.file, c.addition m.text.toList arguments)) ∨
    ∃ m lines, p.file? e.1 = some m ∧ e.2 = m.importEdit lines := by
  obtain ⟨replaced, hreplaced, h⟩ := bind_eq_ok_iff.1 h
  obtain ⟨appended, happended, h⟩ := bind_eq_ok_iff.1 h
  obtain ⟨imports, himports, h⟩ := bind_eq_ok_iff.1 h
  rw [← Except.ok.inj h] at he
  rcases List.mem_append.1 he with he | he
  · rcases List.mem_append.1 he with he | he
    · obtain ⟨⟨id, inner⟩, _, he⟩ := exists_of_mem_mapM hreplaced he
      obtain ⟨c, hc, he⟩ := bind_eq_ok_iff.1 he
      exact Or.inl ⟨c, List.mem_of_getElem? (recordOf_eq_ok_iff.1 hc), inner,
        (Except.ok.inj he).symm⟩
    · obtain ⟨⟨id, arguments⟩, _, he⟩ := exists_of_mem_mapM happended he
      obtain ⟨c, hc, he⟩ := bind_eq_ok_iff.1 he
      obtain ⟨m, hm, he⟩ := bind_eq_ok_iff.1 he
      exact Or.inr (Or.inl ⟨c, List.mem_of_getElem? (recordOf_eq_ok_iff.1 hc), m, arguments,
        moduleOf_eq_ok_iff.1 hm, (Except.ok.inj he).symm⟩)
  · obtain ⟨⟨file, lines⟩, _, he⟩ := exists_of_mem_mapM himports he
    obtain ⟨m, hm, he⟩ := bind_eq_ok_iff.1 he
    rw [← Except.ok.inj he]
    exact Or.inr (Or.inr ⟨m, lines, moduleOf_eq_ok_iff.1 hm, rfl⟩)

section Sources

variable {config : Config} {sources : List (String × String)} {read : TreeReader}
  {gap behind : List Char → Nat → Nat → Prop} (hread : ReadWith read gap behind sources)
  (hedits : (ofSources config sources read).editsOf t = .ok edits)

include hread hedits

/-- Every edit that is asked of a project fits the text of its file. -/
theorem fits_of_editsOf {e : FileId × TextEdit} (he : e ∈ edits) :
    ∃ m, (ofSources config sources read).file? e.1 = some m ∧ e.2.Fits m.text.toList := by
  rcases mem_editsOf hedits he with ⟨c, hc, inner, rfl⟩ | ⟨c, hc, m, arguments, hm, rfl⟩ |
    ⟨m, lines, hm, hedit⟩
  · obtain ⟨path, text, _, hfile, hplaced, _⟩ := placed_of_mem_calls hread hc
    exact ⟨_, hfile, CallRecord.fits_replacement (CallRecord.spans_of_placed hplaced)
      hplaced.opening.isBoundary_stop inner⟩
  · obtain ⟨path, text, _, hfile, hplaced, _⟩ := placed_of_mem_calls hread hc
    obtain rfl := Option.some.inj (hfile.symm.trans hm)
    exact ⟨_, hfile, (CallRecord.addition_within hplaced arguments).2.2⟩
  · obtain ⟨path, text, hsource, rfl⟩ := exists_source_of_file? hm
    have hoffset := SourceModule.isBoundary_importOffset (hread path text hsource) path
    rw [hedit]
    exact ⟨_, hm, hoffset, hoffset, Nat.le_refl _⟩

/-! ## Edits that lie apart -/

/-- A commit of edits that lie apart, in files without a document, succeeds. Each file it reaches
gets one new text: the old one with every edit's range replaced by the edit's text, all at once. -/
theorem commitEdits_of_apart
    (hnew : ∀ e ∈ edits, KeyedList.has documents e.1 = false)
    (hapart : ∀ file, (editsIn edits file).Pairwise Apart) :
    ∃ texts, (ofSources config sources read).commitEdits ⟨some t, documents⟩ =
        (.ok (), { documents := KeyedList.putAll documents texts }) ∧
      KeyedList.keys texts = dedupBy id (edits.map (·.1)) ∧
      ∀ entry ∈ texts, ∃ m, (ofSources config sources read).file? entry.1 = some m ∧
        Spliced 0 m.text.toList (inTextOrder (editsIn edits entry.1)) entry.2.toList := by
  -- each file that the edits reach can be edited
  have hfile : ∀ file ∈ dedupBy id (edits.map (·.1)), ∃ new, ∃ m,
      (ofSources config sources read).file? file = some m ∧
      (ofSources config sources read).editedText documents file (editsIn edits file) = .ok new ∧
      Spliced 0 m.text.toList (inTextOrder (editsIn edits file)) new.toList := by
    intro file hmem
    obtain ⟨e, he, rfl⟩ := List.mem_map.1 (mem_of_mem_dedupBy hmem)
    obtain ⟨m, hm, _⟩ := fits_of_editsOf hread hedits he
    have hfits : ∀ f ∈ editsIn edits e.1, f.Fits m.text.toList := by
      intro f hf
      obtain ⟨m', hm', hfit⟩ := fits_of_editsOf hread hedits (mem_editsIn.1 hf)
      rw [← Option.some.inj (hm'.symm.trans hm)]
      exact hfit
    obtain ⟨result, hresult, hmade⟩ := exists_spliced_of_apart hfits (hapart e.1)
    refine ⟨String.ofList result, m, hm, ?_, ?_⟩
    · exact editedText_eq_ok_iff.2 ⟨hnew e he, m, hm, hmade⟩
    · rw [String.toList_ofList]
      exact hresult
  obtain ⟨texts, hkeys, hall⟩ := exists_keyed hfile
  have htexts : (ofSources config sources read).editedTexts documents t = .ok texts := by
    refine editedTexts_eq_ok_iff.2 ⟨edits, hedits, hkeys, fun entry hentry => ?_⟩
    obtain ⟨_, _, hmade, _⟩ := hall entry hentry
    exact hmade
  refine ⟨texts, commitEdits_of_editedTexts htexts, hkeys, fun entry hentry => ?_⟩
  obtain ⟨m, hm, _, hspliced⟩ := hall entry hentry
  exact ⟨m, hm, hspliced⟩

end Sources

/-- A call among the arguments of another. -/
def nestedCalls : Project :=
  ofSources .default [("m.py", "f(g())\n")]

/-- New arguments for the inner call and then for the outer one. -/
def bothReplaced : PendingEdits where
  replaced := [(⟨1⟩, "b=2"), (⟨0⟩, "a=1")]

/-- The commit of both succeeds. The inner edit is made first, the outer one then ends inside of
what the inner has written, and pieces of both are left. -/
theorem commitEdits_of_nested :
    nestedCalls.editsOf bothReplaced = .ok [(⟨0⟩, ⟨4, 4, "b=2"⟩), (⟨0⟩, ⟨2, 5, "a=1"⟩)] ∧
    ¬Apart ⟨4, 4, "b=2"⟩ ⟨2, 5, "a=1"⟩ ∧
    nestedCalls.commitEdits { pending := some bothReplaced } =
      (.ok (), { documents := [(⟨0⟩, "f(a=1=2))\n")] }) := by
  have hedits : nestedCalls.editsOf bothReplaced =
      .ok [(⟨0⟩, ⟨4, 4, "b=2"⟩), (⟨0⟩, ⟨2, 5, "a=1"⟩)] := eq_ok_of_toOption (by decide +kernel)
  have hapart : ¬Apart ⟨4, 4, "b=2"⟩ ⟨2, 5, "a=1"⟩ := by
    rintro ⟨hbefore | hbefore, _⟩
    · exact absurd hbefore (by decide)
    · exact absurd hbefore (by decide)
  have hmade : applyAll "f(g())\n" [⟨4, 4, "b=2"⟩, ⟨2, 5, "a=1"⟩] = .ok "f(a=1=2))\n" := by
    rw [applyAll_of_pairwise (by simp [comesFirst])]
    rfl
  have htexts : nestedCalls.editedTexts [] bothReplaced = .ok [(⟨0⟩, "f(a=1=2))\n")] := by
    refine editedTexts_eq_ok_iff.2 ⟨_, hedits, by decide, ?_⟩
    intro entry hentry
    rw [List.mem_singleton.1 hentry]
    refine editedText_eq_ok_iff.2 ⟨rfl, SourceModule.ofText "m.py" "f(g())\n", ?_, hmade⟩
    rw [nestedCalls, Codebase.file?, files_ofSources]
    rfl
  have hcommit := commitEdits_of_editedTexts htexts
  exact ⟨hedits, hapart, hcommit⟩

end Project

end CallFill
