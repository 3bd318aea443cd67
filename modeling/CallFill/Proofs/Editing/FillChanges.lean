import CallFill.Proofs.Editing.CallEdits
import CallFill.Proofs.Source.Trivia

/-!
# Filling a call changes the text

Arguments that are appended bring an equals sign and overwrite none. Arguments that are put between
empty parentheses overwrite blanks, comments and commas and are none themselves, which settles it
where nothing is imported. Lines before the call move the end of the arguments into what was vacant.
Lines behind it start with a letter, and no line that is overwritten does.
-/

namespace CallFill

open Text TextEdit Source

namespace TextEdit

variable {pos : Nat} {cs result : List Char} {es : List TextEdit} {d : Char}

/-- Edits that overwrite nothing of a character leave it as often as it was, and as often again as
their texts have it. -/
theorem Spliced.count_eq (h : Spliced pos cs es result) (before : List Char)
    (hpos : byteLength before = pos)
    (hcut : ∀ e ∈ es, ∀ piece, Holds (before ++ cs) e.start e.stop piece → d ∉ piece) :
    result.count d = cs.count d + (es.flatMap fun e => e.text.toList).count d := by
  induction h generalizing before with
  | kept pos cs => exact (Nat.add_zero _).symm
  | @edited pos kept cut rest result e es hstart hstop h ih =>
      have hpiece : Holds (before ++ (kept ++ (cut ++ rest))) e.start e.stop cut := by
        refine ⟨before ++ kept, rest, ?_, ?_, hstop.symm⟩
        · rw [List.append_assoc]
        · rw [byteLength_append]
          omega
      have hnone := List.count_eq_zero.2 (hcut e List.mem_cons_self cut hpiece)
      have htext : before ++ (kept ++ (cut ++ rest)) = before ++ kept ++ cut ++ rest := by
        rw [List.append_assoc, List.append_assoc]
      have hlen : byteLength (before ++ kept ++ cut) = e.stop := by
        rw [byteLength_append, byteLength_append]
        omega
      rw [htext] at hcut
      have hrest := ih _ hlen fun f hf => hcut f (List.mem_cons_of_mem e hf)
      rw [List.count_append, List.count_append, List.count_append, List.count_append, hrest,
        hnone, List.flatMap_cons, List.count_append]
      omega

/-- The first edit of a splice, and the splice of the others. -/
theorem Spliced.of_cons {e : TextEdit} (h : Spliced pos cs (e :: es) result) :
    ∃ before cut rest next, cs = before ++ (cut ++ rest) ∧ e.start = pos + byteLength before ∧
      e.stop = e.start + byteLength cut ∧ result = before ++ (e.text.toList ++ next) ∧
      Spliced e.stop rest es next := by
  cases h with
  | edited hstart hstop h => exact ⟨_, _, _, _, rfl, hstart, hstop, rfl, h⟩

/-- An insertion cuts nothing out. -/
theorem Spliced.of_insertion {e : TextEdit} (h : Spliced pos cs (e :: es) result)
    (hinsert : e.stop = e.start) :
    ∃ before rest next, cs = before ++ rest ∧ e.start = pos + byteLength before ∧
      result = before ++ (e.text.toList ++ next) ∧ Spliced e.start rest es next := by
  obtain ⟨before, cut, rest, next, hcs, hstart, hstop, hresult, hrest⟩ := h.of_cons
  have hnil : cut = [] := byteLength_eq_zero (by omega)
  subst hnil
  exact ⟨before, rest, next, hcs, hstart, hresult, hinsert ▸ hrest⟩

end TextEdit

namespace CallRecord

variable {c : CallRecord} {m : SourceModule} {arguments lines : List String}
  {result : List Char}

/-! ## Import lines -/

/-- The text of an import edit starts a line with a letter, unless it stands at the start of the
text. -/
theorem exists_importEdit_text (hlines : ∀ line ∈ lines, ∃ rest, line.toList = 'f' :: rest)
    (hne : lines ≠ []) (hoffset : 0 < m.importOffset) :
    ∃ rest, (m.importEdit lines).text.toList = '\n' :: 'f' :: rest := by
  cases hlist : lines with
  | nil => exact absurd hlist hne
  | cons line others =>
      obtain ⟨rest, hrest⟩ := hlines line (by rw [hlist]; exact List.mem_cons_self)
      rw [SourceModule.importEdit]
      dsimp only
      rw [if_pos hoffset, String.toList_append, String.toList_intercalate, List.map_cons, hrest]
      cases others with
      | nil =>
          rw [List.map_nil, List.intercalate_singleton]
          exact ⟨rest, rfl⟩
      | cons other others =>
          rw [List.map_cons, List.intercalate_cons_cons]
          exact ⟨_, rfl⟩

/-! ## Arguments between empty parentheses -/

/-- Arguments in the place of a vacant stretch, with or without lines before them, change a text:
the argument cannot have been in the stretch. -/
theorem ne_of_lines_before (block between : List Char) {plan cut rest : List Char}
    (hplan : NeverVacant plan) (hcut : IsVacant cut) :
    block ++ (between ++ (plan ++ rest)) ≠ between ++ (cut ++ rest) := by
  intro h
  have hwhole : block ++ between ++ plan ++ rest = between ++ cut ++ rest := by
    rw [List.append_assoc, List.append_assoc, List.append_assoc]
    exact h
  have hfront := List.append_cancel_right hwhole
  rcases List.append_eq_append_iff.1 hfront with ⟨extra, hbetween, htail⟩ | ⟨extra, _, htail⟩
  · have hlen := congrArg List.length hbetween
    rw [List.length_append, List.length_append] at hlen
    have hnil : extra = [] := List.length_eq_zero_iff.1 (by omega)
    rw [hnil, List.nil_append] at htail
    rw [htail] at hplan
    exact hplan false hcut
  · rw [htail] at hcut
    exact hplan.prepend extra false hcut

/-- Arguments in the place of a vacant stretch, with lines behind them, change a text: a line that
starts with a letter is new. -/
theorem ne_of_lines_behind {block between plan cut rest : List Char} (hcut : IsVacant cut)
    (hbetween : ∃ tail, between = ')' :: tail) (hblock : ∃ tail, block = '\n' :: 'f' :: tail) :
    plan ++ (between ++ (block ++ rest)) ≠ cut ++ (between ++ rest) := by
  intro h
  have hwhole : plan ++ (between ++ block) ++ rest = cut ++ between ++ rest := by
    rw [List.append_assoc, List.append_assoc, List.append_assoc]
    exact h
  have hfront := List.append_cancel_right hwhole
  obtain ⟨tail, rfl⟩ := hbetween
  obtain ⟨tail', rfl⟩ := hblock
  have hold : countPairs '\n' 'f' (cut ++ ')' :: tail) = 0 + countPairs '\n' 'f' (')' :: tail) := by
    rw [countPairs_append_cons (by decide), countPairs_of_scan (by decide) (by decide) (by decide)
      hcut]
  have hnew : countPairs '\n' 'f' ('\n' :: 'f' :: tail') =
      1 + countPairs '\n' 'f' ('f' :: tail') := by
    rw [countPairs_cons_cons, if_pos ⟨rfl, rfl⟩]
  have hplan :=
    le_countPairs_append (a := '\n') (b := 'f') plan (')' :: tail ++ '\n' :: 'f' :: tail')
  have hparen := le_countPairs_append (a := '\n') (b := 'f') (')' :: tail) ('\n' :: 'f' :: tail')
  rw [hfront] at hplan
  omega

variable {behind : Nat → Nat → Prop}
  (hplaced : c.Placed m.text.toList (IsVacantBetween m.text.toList) behind)

include hplaced

/-- What is overwritten between empty parentheses is vacant, and the closing parenthesis follows. -/
theorem vacant_between (hcount : c.site.argumentCount = 0)
    {before cut rest : List Char} (htext : m.text.toList = before ++ (cut ++ rest))
    (hstart : c.openParen + 1 = byteLength before)
    (hstop : c.closeParen = c.openParen + 1 + byteLength cut) :
    IsVacant cut ∧ ∃ tail, rest = ')' :: tail := by
  obtain ⟨piece, hpiece, hvacant⟩ := hplaced.gap_of_none (hplaced.last_eq_none_iff.2 hcount)
  have hcut : Holds m.text.toList (c.openParen + 1) c.closeParen cut :=
    ⟨before, rest, htext, hstart.symm, hstop.symm⟩
  obtain ⟨before', rest', htext', hlen, _⟩ := hplaced.closing
  refine ⟨hcut.unique hpiece ▸ hvacant, rest', ?_⟩
  have hsame : before ++ cut ++ rest = before' ++ ([')'] ++ rest') := by
    rw [List.append_assoc, ← htext, htext']
  refine (append_inj_of_byteLength hsame ?_).2
  rw [byteLength_append]
  omega

/-- Arguments alone, between empty parentheses, change the text. -/
theorem ne_of_replacement_alone (hcount : c.site.argumentCount = 0)
    (hplan : NeverVacant (", ".intercalate arguments).toList)
    (h : Spliced 0 m.text.toList [c.replacement (", ".intercalate arguments)] result) :
    result ≠ m.text.toList := by
  intro hsame
  obtain ⟨before, cut, rest, next, htext, hstart, hstop, rfl, hrest⟩ := h.of_cons
  cases hrest
  obtain ⟨hvacant, _⟩ := vacant_between hplaced hcount htext (hstart.trans (Nat.zero_add _)) hstop
  exact ne_of_lines_before [] [] hplan hvacant (List.append_cancel_left (hsame.trans htext))

/-- So do arguments with import lines before the call. -/
theorem ne_of_replacement_behind_lines (hcount : c.site.argumentCount = 0)
    (hplan : NeverVacant (", ".intercalate arguments).toList)
    (h : Spliced 0 m.text.toList
      [m.importEdit lines, c.replacement (", ".intercalate arguments)] result) :
    result ≠ m.text.toList := by
  intro hsame
  obtain ⟨before, rest, next, htext, hstart, rfl, hrest⟩ := h.of_insertion rfl
  obtain ⟨between, cut, rest', next', rfl, hstart', hstop', rfl, hrest'⟩ := hrest.of_cons
  cases hrest'
  have htext' : m.text.toList = before ++ between ++ (cut ++ rest') := by
    rw [htext, List.append_assoc]
  have hlen : c.openParen + 1 = byteLength (before ++ between) := by
    have hoffset : m.importOffset = 0 + byteLength before := hstart
    have hopen : c.openParen + 1 = m.importOffset + byteLength between := hstart'
    rw [byteLength_append]
    omega
  obtain ⟨hvacant, _⟩ := vacant_between hplaced hcount htext' hlen hstop'
  exact ne_of_lines_before _ _ hplan hvacant (List.append_cancel_left (hsame.trans htext))

/-- And so do arguments with import lines behind the call. -/
theorem ne_of_replacement_before_lines (hbehind : c.stop ≤ m.importOffset)
    (hcount : c.site.argumentCount = 0)
    (hlines : ∀ line ∈ lines, ∃ rest, line.toList = 'f' :: rest) (hne : lines ≠ [])
    (h : Spliced 0 m.text.toList
      [c.replacement (", ".intercalate arguments), m.importEdit lines] result) :
    result ≠ m.text.toList := by
  intro hsame
  have hclose := hplaced.close_lt_stop
  obtain ⟨before, cut, rest, next, htext, hstart, hstop, rfl, hrest⟩ := h.of_cons
  obtain ⟨between, rest', next', rfl, hstart', rfl, hrest'⟩ := hrest.of_insertion rfl
  cases hrest'
  obtain ⟨hvacant, tail, htail⟩ :=
    vacant_between hplaced hcount htext (hstart.trans (Nat.zero_add _)) hstop
  have hoffset : m.importOffset = c.closeParen + byteLength between := hstart'
  -- the import lines go behind the whole call, so the parenthesis stands before them
  have hbetween : ∃ tail, between = ')' :: tail := by
    cases between with
    | nil =>
        rw [byteLength_nil] at hoffset
        omega
    | cons d ds => exact ⟨ds, by rw [(List.cons.inj htail).1]⟩
  exact ne_of_lines_behind hvacant hbetween (exists_importEdit_text hlines hne (by omega))
    (List.append_cancel_left (hsame.trans htext))

/-- Filling a call without arguments changes the text. -/
theorem ne_of_replacement
    (hside : m.importOffset ≤ c.start ∨ c.stop ≤ m.importOffset)
    (hcount : c.site.argumentCount = 0)
    (hplan : NeverVacant (", ".intercalate arguments).toList)
    (hlines : ∀ line ∈ lines, ∃ rest, line.toList = 'f' :: rest)
    (h : Spliced 0 m.text.toList (c.fillEdits m arguments lines) result) :
    result ≠ m.text.toList := by
  have hedit : c.argumentEdit m.text.toList arguments =
    c.replacement (", ".intercalate arguments) := if_pos hcount
  rw [fillEdits, hedit] at h
  split at h
  · exact ne_of_replacement_alone hplaced hcount hplan h
  · next hne =>
    split at h
    · exact ne_of_replacement_behind_lines hplaced hcount hplan h
    · next hbefore =>
      exact ne_of_replacement_before_lines hplaced (hside.resolve_left hbefore) hcount hlines hne h

omit hplaced

/-! ## Arguments behind others -/

/-- Filling a call with arguments changes the text. -/
theorem ne_of_addition (hcount : c.site.argumentCount ≠ 0)
    (hlast : c.lastArgumentEnd = none ↔ c.site.argumentCount = 0)
    (hplan : '=' ∈ (", ".intercalate arguments).toList)
    (h : Spliced 0 m.text.toList (c.fillEdits m arguments lines) result) :
    result ≠ m.text.toList := by
  obtain ⟨last, hsome⟩ := Option.ne_none_iff_exists'.1 fun hnone => hcount (hlast.1 hnone)
  have hedit : c.argumentEdit m.text.toList arguments = c.addition m.text.toList arguments :=
    if_neg hcount
  have hmem : c.addition m.text.toList arguments ∈ c.fillEdits m arguments lines := by
    rw [fillEdits, hedit]
    split
    · exact List.mem_cons_self
    · split
      · exact List.mem_cons_of_mem _ List.mem_cons_self
      · exact List.mem_cons_self
  have hcases : ∀ e ∈ c.fillEdits m arguments lines,
      e = c.addition m.text.toList arguments ∨ e = m.importEdit lines := by
    intro e he
    rw [fillEdits, hedit] at he
    split at he
    · exact Or.inl (List.mem_singleton.1 he)
    · split at he
      · exact (List.mem_pair.1 he).symm
      · exact List.mem_pair.1 he
  -- equality signs are counted: no edit takes one away, and the arguments bring one
  have hkept : ∀ e ∈ c.fillEdits m arguments lines, ∀ piece,
      Holds ([] ++ m.text.toList) e.start e.stop piece → '=' ∉ piece := by
    intro e he piece hpiece hequals
    rcases hcases e he with rfl | rfl
    · have htrailing := isTrailing_appendRange hsome hpiece
      have hchar := List.all_eq_true.1 htrailing '=' hequals
      exact absurd hchar (by decide)
    · rw [hpiece.unique (holds_nil hpiece.isBoundary_start)] at hequals
      exact absurd hequals List.not_mem_nil
  have hcounted := h.count_eq [] rfl hkept
  intro hsame
  rw [hsame] at hcounted
  have hzero := List.count_eq_zero.1 (Nat.add_left_cancel hcounted).symm
  refine hzero (List.mem_flatMap.2 ⟨_, hmem, ?_⟩)
  show '=' ∈ (if c.lastArgumentEnd.isSome then ", " ++ ", ".intercalate arguments
    else ", ".intercalate arguments).toList
  rw [hsome, Option.isSome_some, if_pos rfl, String.toList_append]
  exact List.mem_append_right _ hplan

/-! ## Filling a call -/

include hplaced

/-- The edits that fill a call, by arguments that are named and lines that import, lie apart, can be
carried out, and leave another text. -/
theorem exists_changed_fillEdits (hoffset : IsBoundary m.text.toList m.importOffset)
    (hside : m.importOffset ≤ c.start ∨ c.stop ≤ m.importOffset)
    (hnever : NeverVacant (", ".intercalate arguments).toList)
    (hequals : '=' ∈ (", ".intercalate arguments).toList)
    (hlines : ∀ line ∈ lines, ∃ rest, line.toList = 'f' :: rest) :
    ∃ result, Spliced 0 m.text.toList (c.fillEdits m arguments lines) result ∧
      applyAll m.text (c.fillRequests m arguments lines) = .ok (String.ofList result) ∧
      ((c.fillEdits m arguments lines).Pairwise fun a b => a.stop < b.start) ∧
      result ≠ m.text.toList := by
  obtain ⟨result, hspliced, hmade⟩ :=
    exists_spliced_fillEdits hplaced hoffset hside arguments lines
  refine ⟨result, hspliced, hmade, fillEdits_ordered hplaced hside arguments lines, ?_⟩
  -- between empty parentheses the old text is vacant and the new one is not; behind other
  -- arguments, the equality signs are more
  by_cases hcount : c.site.argumentCount = 0
  · exact ne_of_replacement hplaced hside hcount hnever hlines hspliced
  · exact ne_of_addition hcount hplaced.last_eq_none_iff hequals hspliced

end CallRecord

end CallFill
