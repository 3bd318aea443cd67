import CallFill.Proofs.Scope.Comments
import CallFill.Proofs.Workspace.Frame

/-!
# What a population takes out

Filling a call puts new text into a file and takes little out: one piece between the parentheses of
the call. Everything else is kept in order, and every comment outside of the piece is kept whole.
Behind the last argument the piece is a trailing comma with blanks, so no comment is lost where the
call has arguments (`CallRecord.Takes.comment_kept`). A call without arguments gets its text in the
place of all that stands between its parentheses; what is taken out there are blanks only, as long
as no comment is among them (`CallRecord.Takes.layout_iff`), and one that is gets lost
(`Workspace.comment_lost`).
-/

namespace CallFill

open Source Text TextEdit

/-! ## What a splice keeps -/

namespace TextEdit

variable {pos : Nat} {cs result before piece after : List Char} {e : TextEdit}
  {es earlier later : List TextEdit}

/-- Insertions keep everything. -/
theorem Spliced.sublist (h : Spliced pos cs es result) (hinsert : ∀ e ∈ es, e.stop = e.start) :
    cs.Sublist result := by
  induction h with
  | kept pos cs => exact List.Sublist.refl cs
  | @edited pos before cut rest result e es hstart hstop h ih =>
      have hnil : cut = [] := by
        refine byteLength_eq_zero ?_
        have hsame := hinsert e List.mem_cons_self
        omega
      subst hnil
      have hrest := ih fun f hf => hinsert f (List.mem_cons_of_mem e hf)
      exact (List.Sublist.refl before).append
        (hrest.trans (List.sublist_append_right e.text.toList result))

/-- Among insertions, an edit takes the piece in its range out and keeps everything else. -/
theorem Spliced.takes (h : Spliced pos cs (earlier ++ e :: later) result)
    (hearlier : ∀ f ∈ earlier, f.stop = f.start) (hlater : ∀ f ∈ later, f.stop = f.start) :
    ∃ front cut back, cs = front ++ (cut ++ back) ∧ e.start = pos + byteLength front ∧
      e.stop = e.start + byteLength cut ∧ (front ++ back).Sublist result := by
  induction earlier generalizing pos cs result with
  | nil =>
      obtain ⟨kept, cut, rest, next, rfl, hstart, hstop, rfl, hrest⟩ := h.of_cons
      refine ⟨kept, cut, rest, rfl, hstart, hstop, (List.Sublist.refl kept).append ?_⟩
      exact (hrest.sublist hlater).trans (List.sublist_append_right e.text.toList next)
  | cons f earlier ih =>
      obtain ⟨kept, rest, next, rfl, hstart, rfl, hrest⟩ :=
        h.of_insertion (hearlier f List.mem_cons_self)
      obtain ⟨front, cut, back, rfl, hestart, hestop, hsublist⟩ :=
        ih hrest fun g hg => hearlier g (List.mem_cons_of_mem f hg)
      refine ⟨kept ++ front, cut, back, ?_, ?_, hestop, ?_⟩
      · rw [List.append_assoc]
      · rw [byteLength_append]
        omega
      · rw [List.append_assoc]
        exact (List.Sublist.refl kept).append
          (hsublist.trans (List.sublist_append_right f.text.toList next))

/-- A piece that no edit reaches into is still there, in one. -/
theorem Spliced.infix_of_apart (h : Spliced pos cs es result)
    (hcs : cs = before ++ (piece ++ after))
    (hapart : ∀ e ∈ es, pos + byteLength before + byteLength piece ≤ e.start ∨
      e.stop ≤ pos + byteLength before) : piece <:+: result := by
  induction h generalizing before with
  | kept pos cs =>
      rw [hcs]
      exact ⟨before, after, List.append_assoc _ _ _⟩
  | @edited pos kept cut rest result e es hstart hstop h ih =>
      rcases hapart e List.mem_cons_self with hahead | hbehind
      -- the piece lies before the edit, in what is kept there
      · have htexts : before ++ piece ++ after = kept ++ (cut ++ rest) := by
          rw [List.append_assoc]
          exact hcs.symm
        obtain ⟨mid, rfl, -⟩ := append_of_byteLength_le htexts (by
          rw [byteLength_append]
          omega)
        refine ⟨before, mid ++ (e.text.toList ++ result), ?_⟩
        simp only [List.append_assoc]
      -- the piece lies behind the edit
      · have htexts : kept ++ cut ++ rest = before ++ (piece ++ after) := by
          rw [List.append_assoc]
          exact hcs
        obtain ⟨mid, rfl, hrest⟩ := append_of_byteLength_le htexts (by
          rw [byteLength_append]
          omega)
        have hpos : e.stop + byteLength mid = pos + byteLength (kept ++ cut ++ mid) := by
          rw [byteLength_append, byteLength_append]
          omega
        obtain ⟨front, back, hfound⟩ := ih hrest fun f hf => by
          rw [hpos]
          exact hapart f (List.mem_cons_of_mem e hf)
        refine ⟨kept ++ (e.text.toList ++ front), back, ?_⟩
        rw [← hfound]
        simp only [List.append_assoc]

end TextEdit

/-! ## What may be taken out -/

namespace Source

variable {cs : List Char}

/-- Blanks, and at most one comma among them. -/
structure IsLayout (cs : List Char) : Prop where
  blank : ∀ c ∈ cs, c = ',' ∨ Lexer.isFiller c = true
  comma : cs.count ',' ≤ 1

/-- What the editor takes for the end of the arguments is blanks and commas. -/
theorem isTail_of_isTrailing (h : CallRecord.isTrailing cs = true) : IsTail cs := by
  intro c hc
  have hone := List.all_eq_true.1 h c hc
  rw [Bool.or_eq_true, Bool.or_eq_true, beq_iff_eq, beq_iff_eq, beq_iff_eq, or_assoc] at hone
  exact hone

/-- Blanks with one comma at most are layout. -/
theorem isLayout_of_isTail (h : IsTail cs) (hcomma : cs.count ',' ≤ 1) : IsLayout cs where
  comma := hcomma
  blank c hc := by
    rcases h c hc with hcomma | hspace | htab
    · exact Or.inl hcomma
    · rw [hspace]
      exact Or.inr (by decide)
    · rw [htab]
      exact Or.inr (by decide)

/-- Layout has no comment in it. -/
theorem IsLayout.sign_not_mem (h : IsLayout cs) : '#' ∉ cs := by
  intro hsign
  rcases h.blank '#' hsign with hcomma | hfiller
  · exact absurd hcomma (by decide)
  · exact absurd hfiller (by decide)

/-- What leaves no token are blanks, unless there is a comment. -/
theorem isLayout_of_isTrivia (h : IsTrivia cs) (hsign : '#' ∉ cs) : IsLayout cs where
  blank c hc := Or.inr (isFiller_of_scan h hsign c hc)
  comma := by
    have hcomma : ',' ∉ cs := fun hmem =>
      absurd (isFiller_of_scan h hsign ',' hmem) (by decide)
    rw [List.count_eq_zero.2 hcomma]
    exact Nat.zero_le 1

end Source

/-! ## Where a call is edited -/

namespace CallRecord

variable {c : CallRecord} {m : SourceModule} {arguments lines : List String}

/-- The edits that fill a call are that of its arguments and insertions at the place of import
lines. -/
theorem exists_fillEdits_eq (c : CallRecord) (m : SourceModule) (arguments lines : List String) :
    ∃ earlier later, c.fillEdits m arguments lines =
        earlier ++ c.argumentEdit m.text.toList arguments :: later ∧
      (∀ f ∈ earlier, f = m.importEdit lines) ∧ ∀ f ∈ later, f = m.importEdit lines := by
  have hnone : ∀ f ∈ ([] : List TextEdit), f = m.importEdit lines :=
    fun f hf => absurd hf List.not_mem_nil
  have hone : ∀ f ∈ [m.importEdit lines], f = m.importEdit lines :=
    fun f hf => List.mem_singleton.1 hf
  rw [fillEdits]
  split
  · exact ⟨[], [], rfl, hnone, hnone⟩
  · split
    · exact ⟨[m.importEdit lines], [], rfl, hone, hnone⟩
    · exact ⟨[], [m.importEdit lines], rfl, hnone, hone⟩

/-- The offsets at which a call is edited have a property. -/
abbrev EditedAt (P : Nat → Prop) (c : CallRecord) : Prop :=
  EditOffsets P c.openParen c.closeParen c.lastArgumentEnd

/-- The edit of the arguments starts and ends at offsets of the call. -/
theorem argumentEdit_offsets {P : Nat → Prop} {text : List Char} (h : c.EditedAt P)
    (hspans : c.Spans text) :
    P (c.argumentEdit text arguments).start ∧ P (c.argumentEdit text arguments).stop := by
  rw [CallRecord.argumentEdit]
  split
  · exact ⟨h.opening, h.closing⟩
  · next hcount =>
      obtain ⟨last, hlast⟩ := hspans.last_isSome hcount
      obtain ⟨hstart, hstop⟩ := appendRange_of_some text hlast
      refine ⟨?_, ?_⟩
      · show P (c.appendRange text).1
        rw [hstart]
        exact h.last last hlast
      · show P (c.appendRange text).2
        rcases hstop with hstop | hstop
        · rw [hstop]
          exact h.last last hlast
        · rw [hstop]
          exact h.closing

/-- What appended arguments overwrite has at most one comma. -/
theorem count_comma_appendRange {text piece : List Char} {last : Nat} {gap : Nat → Nat → Prop}
    (hplaced : c.Placed text gap (HasOneComma text)) (h : c.lastArgumentEnd = some last)
    (hpiece : Holds text (c.appendRange text).1 (c.appendRange text).2 piece) :
    piece.count ',' ≤ 1 := by
  have htail := isTail_of_isTrailing (isTrailing_appendRange h hpiece)
  obtain ⟨hstart, hstop | hstop⟩ := appendRange_of_some text h
  · rw [hstart, hstop] at hpiece
    rw [hpiece.unique (holds_nil hpiece.isBoundary_start)]
    exact Nat.zero_le 1
  · rw [hstart, hstop] at hpiece
    exact hplaced.trailing last h piece hpiece htail

/-- A new text has lost a piece of the old one between the parentheses of a call, and nothing else.
With arguments the piece starts where the last one ends and is a trailing comma with spaces and
tabs; without any it is all that stands between the parentheses. -/
structure Takes (c : CallRecord) (old new : List Char) (start stop : Nat) (piece : List Char) :
    Prop where
  within : c.openParen < start ∧ stop ≤ c.closeParen
  kept : ∃ front back, old = front ++ (piece ++ back) ∧ start = byteLength front ∧
    stop = start + byteLength piece ∧ (front ++ back).Sublist new
  comments : ∀ a b comment, IsComment old a b comment →
    comment <:+: new ∨ (start ≤ a ∧ b ≤ stop)
  trailing : c.site.argumentCount ≠ 0 →
    c.lastArgumentEnd = some start ∧ IsTail piece ∧ piece.count ',' ≤ 1
  inner : c.site.argumentCount = 0 →
    start = c.openParen + 1 ∧ stop = c.closeParen ∧ IsTrivia piece

namespace Takes

variable {old new piece : List Char} {start stop : Nat} (h : c.Takes old new start stop piece)

include h

/-- A comment in the range of what is taken out is taken out. -/
theorem mem_of_comment {a b : Nat} {comment : List Char} (hcomment : IsComment old a b comment)
    (hin : start ≤ a ∧ b ≤ stop) : '#' ∈ piece := by
  obtain ⟨front, back, htext, hstart, hstop, -⟩ := h.kept
  obtain ⟨before, after, htext', ha, hb⟩ := hcomment.holds
  obtain ⟨body, rfl⟩ := hcomment.sign
  have htexts : front ++ (piece ++ back) = before ++ ('#' :: body ++ after) :=
    htext.symm.trans htext'
  obtain ⟨mid, rfl, hmid⟩ := append_of_byteLength_le htexts (by omega)
  have hpiece : mid ++ '#' :: body ++ after = piece ++ back := by
    rw [hmid, List.append_assoc]
  obtain ⟨rest, rfl, -⟩ := append_of_byteLength_le hpiece (by
    rw [byteLength_append] at ha ⊢
    omega)
  simp

/-- **Every comment is kept where the call has arguments.** -/
theorem comment_kept (hcount : c.site.argumentCount ≠ 0) {a b : Nat} {comment : List Char}
    (hcomment : IsComment old a b comment) : comment <:+: new := by
  rcases h.comments a b comment hcomment with hkept | hin
  · exact hkept
  · obtain ⟨_, htail, hcomma⟩ := h.trailing hcount
    exact absurd (h.mem_of_comment hcomment hin) (isLayout_of_isTail htail hcomma).sign_not_mem

/-- **Only blanks and at most one comma are taken out exactly if the call has arguments, or no
comment between its parentheses.** -/
theorem layout_iff : IsLayout piece ↔ (c.site.argumentCount ≠ 0 ∨ '#' ∉ piece) := by
  constructor
  · exact fun hlayout => Or.inr hlayout.sign_not_mem
  · intro hcase
    by_cases hcount : c.site.argumentCount = 0
    · obtain ⟨-, -, htrivia⟩ := h.inner hcount
      exact isLayout_of_isTrivia htrivia (hcase.resolve_left (not_not_intro hcount))
    · obtain ⟨-, htail, hcomma⟩ := h.trailing hcount
      exact isLayout_of_isTail htail hcomma

end Takes

/-- The edits that fill a call take out a piece between its parentheses. -/
theorem takes_of_spliced {result : List Char}
    (hplaced :
      c.Placed m.text.toList (IsBlankBetween m.text.toList) (HasOneComma m.text.toList))
    (hoffsets : c.EditedAt (OutsideComments m.text.toList))
    (himport : OutsideComments m.text.toList m.importOffset)
    (h : Spliced 0 m.text.toList (c.fillEdits m arguments lines) result) :
    ∃ start stop piece, c.Takes m.text.toList result start stop piece := by
  have hspans := spans_of_placed hplaced
  obtain ⟨hopen, hclose, -⟩ :=
    argumentEdit_within hspans (opensBetween_of_placed hplaced) arguments
  have houtside : OutsideComments m.text.toList (c.argumentEdit m.text.toList arguments).start ∧
      OutsideComments m.text.toList (c.argumentEdit m.text.toList arguments).stop :=
    argumentEdit_offsets hoffsets hspans
  obtain ⟨hstartOutside, hstopOutside⟩ := houtside
  obtain ⟨earlier, later, hedits, hearlier, hlater⟩ := c.exists_fillEdits_eq m arguments lines
  have hinsert : ∀ f, f = m.importEdit lines → f.stop = f.start := by
    rintro f rfl
    rfl
  rw [hedits] at h
  obtain ⟨front, piece, back, htext, hstart, hstop, hkept⟩ :=
    h.takes (fun f hf => hinsert f (hearlier f hf)) fun f hf => hinsert f (hlater f hf)
  rw [Nat.zero_add] at hstart
  have hpiece : Holds m.text.toList (c.argumentEdit m.text.toList arguments).start
      (c.argumentEdit m.text.toList arguments).stop piece :=
    ⟨front, back, htext, hstart.symm, hstop.symm⟩
  refine ⟨_, _, piece, ⟨hopen, hclose⟩, ⟨front, back, htext, hstart, hstop, hkept⟩, ?_, ?_, ?_⟩
  · intro a b comment hcomment
    have hlt := hcomment.start_lt_stop
    -- no edit starts or ends inside of the comment
    have hfirst := hstartOutside a b comment hcomment
    have hlast := hstopOutside a b comment hcomment
    have hlines := himport a b comment hcomment
    obtain ⟨before, after, htext', ha, hb⟩ := hcomment.holds
    by_cases hin : (c.argumentEdit m.text.toList arguments).start ≤ a ∧
        b ≤ (c.argumentEdit m.text.toList arguments).stop
    · exact Or.inr hin
    · refine Or.inl (h.infix_of_apart htext' fun f hf => ?_)
      have hcase : f = c.argumentEdit m.text.toList arguments ∨ f = m.importEdit lines := by
        rcases List.mem_append.1 hf with hf | hf
        · exact Or.inr (hearlier f hf)
        · rcases List.mem_cons.1 hf with hf | hf
          · exact Or.inl hf
          · exact Or.inr (hlater f hf)
      rcases hcase with rfl | rfl
      · omega
      · show _ ≤ m.importOffset ∨ m.importOffset ≤ _
        omega
  · intro hcount
    obtain ⟨last, hlast⟩ := hspans.last_isSome hcount
    rw [CallRecord.argumentEdit, if_neg hcount] at hpiece ⊢
    refine ⟨?_, isTail_of_isTrailing (isTrailing_appendRange hlast hpiece),
      count_comma_appendRange hplaced hlast hpiece⟩
    rw [hlast]
    exact congrArg some (appendRange_of_some _ hlast).1.symm
  · intro hcount
    rw [CallRecord.argumentEdit, if_pos hcount] at hpiece ⊢
    obtain ⟨blank, hblank, htrivia⟩ := hplaced.gap_of_none (hplaced.last_eq_none_iff.2 hcount)
    exact ⟨rfl, rfl, hpiece.unique hblank ▸ htrivia⟩

end CallRecord

/-- The calls of a project are edited outside of comments. -/
theorem Project.editedAt_of_mem_calls {config : Config} {sources : List (String × String)}
    {c : CallRecord} {m : SourceModule} (h : c ∈ (ofSources config sources).calls)
    (hm : (ofSources config sources).file? c.site.file = some m) :
    c.EditedAt (OutsideComments m.text.toList) := by
  obtain ⟨path, text, _, hfile, d, hd, base, hc⟩ := exists_def_of_mem_calls h
  obtain rfl := Option.some.inj (hfile.symm.trans hm)
  rw [hc]
  exact SourceModule.editedAt_of_mem_calls hd

namespace Workspace

variable {w w' : Workspace} {c : CallRecord} {report : Report} {path : String} {offset : Nat}

/-- The file of a call has a new text, which has lost a piece of the old one between the parentheses
of the call and nothing else. -/
def Takes (w w' : Workspace) (c : CallRecord) : Prop :=
  ∃ m new start stop piece, w.project.file? c.site.file = some m ∧
    w.source? m.path = some m.text ∧ w'.source? m.path = some new ∧
    c.Takes m.text.toList new.toList start stop piece

/-- A call that is filled loses a piece between its parentheses. -/
theorem Outcome.takes (houtcome : w.Outcome c report w') (h : w.IsCurrent) (hread : w.read = parse)
    (hc : c ∈ w.project.calls) :
    (report.changed = false ∧ w' = w) ∨ (report.changed = true ∧ w.Takes w' c) := by
  cases houtcome with
  | unchanged hreport => exact Or.inl ⟨hreport, rfl⟩
  | @filled m lines new hreport hfile hsource hlines hspliced happart hnew hothers =>
      have hmodule := hfile
      rw [h.project_eq, hread] at hc hmodule
      obtain ⟨path, text, -, hfound, hplaced, -⟩ :=
        Project.placed_of_mem_calls (fun _ text _ => lies_parse text.toList) hc
      obtain rfl := Option.some.inj (hfound.symm.trans hmodule)
      obtain ⟨start, stop, piece, htakes⟩ := CallRecord.takes_of_spliced hplaced
        (Project.editedAt_of_mem_calls hc hmodule)
        (SourceModule.outsideComments_importOffset path text) hspliced
      exact Or.inr ⟨hreport, _, new, start, stop, piece, hfile, hsource,
        source?_write_self w _ new, htakes⟩

/-- Where the texts are read by the grammar and a call is found, and whoever answers the questions
about it, a population changes nothing or takes out a piece between the parentheses of the call. -/
theorem population_takes (h : w.Reachable) (hread : w.read = parse)
    (hlocate : w.locate path offset = .ok c) (o : Options) :
    (∀ sel, ∃ report w', w.populateWith path offset o sel = (.ok report, w') ∧
      ((report.changed = false ∧ w' = w) ∨ (report.changed = true ∧ w.Takes w' c))) ∧
    ∀ (τ : Type) (chooser : Chooser τ) (asked : τ), ∃ report w',
      (w.populate path offset o chooser asked).1 = (.ok report, w') ∧
      ((report.changed = false ∧ w' = w) ∨ (report.changed = true ∧ w.Takes w' c)) := by
  have hc := mem_calls_of_locate hlocate
  have hfaultless := readFaultlessly_of_parse hread
  refine ⟨fun sel => ?_, fun τ chooser asked => ?_⟩
  · rw [populateWith, hlocate]
    obtain ⟨report, w', hresult, houtcome⟩ := h.isCurrent.outcome_populateMissing hfaultless hc
      (w.project.host.missing c.site o) o sel
    exact ⟨report, w', hresult, houtcome.takes h.isCurrent hread hc⟩
  · rw [populate, hlocate]
    dsimp only
    obtain ⟨report, w', hresult, houtcome⟩ := h.isCurrent.outcome_run hfaultless hc chooser o asked
    exact ⟨report, w', hresult, houtcome.takes h.isCurrent hread hc⟩

/-- A call with nothing but a comment between its parentheses. -/
def commentCall : String :=
  "def f(a): pass\nf(\n    # keep me\n)\n"

/-- The comment is one of the text, and gone when the call is filled. -/
theorem comment_lost :
    IsComment commentCall.toList 22 31 "# keep me".toList ∧
    ((ofSources .default [("m.py", commentCall)]).populateWith "m.py" 16 {} []).2.source? "m.py" =
      some "def f(a): pass\nf(a=...)\n" := by
  have hcomment : IsComment commentCall.toList 22 31 "# keep me".toList := by
    refine ⟨?_, ⟨" keep me".toList, by decide⟩, by decide, by decide +kernel, by decide +kernel⟩
    exact ⟨"def f(a): pass\nf(\n    ".toList, "\n)\n".toList, by decide, by decide, by decide⟩
  exact ⟨hcomment, by decide +kernel⟩

end Workspace

end CallFill
