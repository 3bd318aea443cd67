import CallFill.Proofs.Source.Tokens

/-!
# The lexer lays out tokens

Every step of the lexer reads one token, passes over a blank, a comment or a joined line end, or
changes only what it remembers of contexts and indentation; so what it has read stays covered, and
the tokens of a text are laid out in it (`laid_lex`).
-/

namespace CallFill.Source

namespace Lexer

open Text

/-- The lexer has read the text up to a rest. -/
abbrev Reads (text rest : List Char) (l : Lexer) : Prop :=
  Covered text rest l.pos l.tokens l.joints

variable {text rest cs : List Char} {l : Lexer}

theorem isFiller_newline : isFiller '\n' = true := by decide

/-- What begins code is no line end. -/
theorem ne_newline_of_not_filler {c : Char} (h : isFiller c = false) : c ≠ '\n' := by
  rintro rfl
  rw [isFiller_newline] at h
  exact absurd h (by decide)

/-! ## Reading a token -/

/-- A token may be emitted for what has been read, if code begins with it and the layout takes
nothing. -/
theorem Reads.emit (h : Reads text (cs ++ rest) l) (kind : TokenKind)
    (hcode : kind.isCode = true → ∃ c tail, cs = c :: tail ∧ c ≠ '\n')
    (hlayout : kind.isLayout = true → cs = []) : Reads text rest (l.emit kind cs) :=
  h.token kind hcode hlayout

/-- A token of no length, such as the end of a line. -/
theorem Reads.emit_nil (h : Reads text rest l) {kind : TokenKind} (hkind : kind.isCode = false) :
    Reads text rest (l.emit kind []) := by
  have hempty : Reads text ([] ++ rest) l := h
  refine hempty.emit kind ?_ fun _ => rfl
  intro hcode
  rw [hkind] at hcode
  exact absurd hcode (by decide)

/-- A token that may take up room and does not start with a line end. -/
theorem Reads.emit_code (h : Reads text (cs ++ rest) l) {kind : TokenKind}
    (hkind : kind.isLayout = false) (hcs : ∃ c tail, cs = c :: tail ∧ c ≠ '\n') :
    Reads text rest (l.emit kind cs) := by
  refine h.emit kind (fun _ => hcs) fun hlayout => ?_
  rw [hkind] at hlayout
  exact absurd hlayout (by decide)

/-- A token of the next characters, where the text does not go on with a line end. -/
theorem Reads.emit_take {c : Char} (h : Reads text (c :: cs) l) (kind : TokenKind)
    (hkind : kind.isLayout = false) {n : Nat} (hn : 0 < n) (hc : c ≠ '\n') :
    Reads text ((c :: cs).drop n) (l.emit kind ((c :: cs).take n)) := by
  rw [← List.take_append_drop n (c :: cs)] at h
  refine Reads.emit_code h hkind ?_
  obtain ⟨n, rfl⟩ : ∃ m, n = m + 1 := ⟨n - 1, by omega⟩
  exact ⟨c, cs.take n, rfl, hc⟩

/-- A token that is not code and may take up room. -/
theorem Reads.emit_other (h : Reads text (cs ++ rest) l) {kind : TokenKind}
    (hkind : kind.isCode = false ∧ kind.isLayout = false) : Reads text rest (l.emit kind cs) := by
  refine h.emit kind (fun hcode => ?_) fun hlayout => ?_
  · rw [hkind.1] at hcode
    exact absurd hcode (by decide)
  · rw [hkind.2] at hlayout
    exact absurd hlayout (by decide)

/-- A token that is not code, of the next characters. -/
theorem Reads.emit_plain (h : Reads text cs l) (kind : TokenKind)
    (hkind : kind.isCode = false ∧ kind.isLayout = false) (n : Nat) :
    Reads text (cs.drop n) (l.emit kind (cs.take n)) := by
  rw [← List.take_append_drop n cs] at h
  exact Reads.emit_other h hkind

/-- A token may be emitted for as many characters as there are of one sort. -/
theorem Reads.emit_takeWhile {c : Char} (h : Reads text (c :: cs) l) (kind : TokenKind)
    (hkind : kind.isLayout = false) (p : Char → Bool) (hp : p c = true) (hc : c ≠ '\n') :
    Reads text ((c :: cs).dropWhile p) (l.emit kind ((c :: cs).takeWhile p)) := by
  rw [← List.takeWhile_append_dropWhile (p := p) (l := c :: cs)] at h
  refine Reads.emit_code h hkind ?_
  rw [List.takeWhile_cons, if_pos hp]
  exact ⟨c, cs.takeWhile p, rfl, hc⟩

/-! ## Line ends and indentation -/

/-- The token that ends a line takes no room. -/
theorem Reads.endLine (h : Reads text rest l) : Reads text rest l.endLine := by
  rw [Lexer.endLine]
  cases l.inLine with
  | true => exact h.emit_nil rfl
  | false => exact h

/-- The tokens that end blocks take no room. -/
theorem Reads.closeBlocks (h : Reads text rest l) (width : Nat) (indents : List Nat) :
    Reads text rest (closeBlocks width indents l) := by
  induction indents generalizing l with
  | nil => exact h
  | cons i indents ih =>
      rw [Lexer.closeBlocks]
      by_cases hlt : width < i
      · rw [if_pos hlt]
        exact ih (h.emit_nil rfl)
      · rw [if_neg hlt]
        exact h

theorem Reads.settle (h : Reads text rest l) : Reads text rest l.settle := by
  rw [Lexer.settle]
  cases l.width with
  | none => exact h
  | some width =>
      have hl : Reads text rest { l with width := none } := h
      show Reads text rest (if _ then if _ then _ else _ else _)
      split
      · split
        · exact hl.emit_nil rfl
        · exact hl
      · exact hl.closeBlocks width l.indents

/-! ## Blanks, comments and joined line ends -/

/-- Blanks and comments may be skipped, as far as they are scanned to their end. -/
theorem Reads.skip (h : Reads text (cs ++ rest) l)
    (hscan : ∀ s, CanPause s (cs ++ rest) → ∃ t, scan s cs = some t ∧ CanPause t rest) :
    Reads text rest (l.skip cs) :=
  Covered.skip h hscan

/-- One filler may be skipped. -/
theorem Reads.skip_filler {c : Char} (h : Reads text (c :: rest) l) (hc : isFiller c = true) :
    Reads text rest (l.skip [c]) := by
  have hfirst : Reads text ([c] ++ rest) l := h
  refine hfirst.skip fun s hpause => ⟨false, ?_, fun hfalse => absurd hfalse (by decide)⟩
  cases s with
  | false => exact scan_false_filler hc
  -- inside a comment the lexer stands at a line end only, which ends the comment
  | true =>
      have hline : c = '\n' := hpause rfl c (Option.mem_some_self c)
      subst hline
      rfl

/-- What the lexer does at a filler is to skip it, and perhaps to end the line. -/
theorem Reads.filler {c : Char} (h : Reads text (c :: rest) l) (hc : isFiller c = true) :
    Reads text rest (l.filler c) := by
  have hl : Reads text (c :: rest) { l with width := l.width.map (widen · c) } := h
  rw [Lexer.filler]
  show Reads text rest (if _ then _ else _)
  split
  · exact hl.endLine.skip_filler hc
  · exact hl.skip_filler hc

/-- A comment is passed over up to the end of its line. -/
theorem Reads.comment (h : Reads text ('#' :: cs) l) :
    Reads text (('#' :: cs).dropWhile (· != '\n'))
      (l.skip (('#' :: cs).takeWhile (· != '\n'))) := by
  have hfirst : ('#' :: cs).takeWhile (· != '\n') = '#' :: cs.takeWhile (· != '\n') := rfl
  rw [← List.takeWhile_append_dropWhile (p := (· != '\n')) (l := '#' :: cs)] at h
  refine h.skip fun s hpause => ?_
  cases s with
  | true =>
      -- a comment that has been read to its end is not followed by another mark of a comment
      rw [List.takeWhile_append_dropWhile] at hpause
      exact absurd (hpause rfl '#' (Option.mem_some_self '#')) (by decide)
  | false =>
      refine ⟨true, ?_, ?_⟩
      · rw [hfirst, scan_false_hash]
        refine scan_true_of_no_newline fun c hc => ?_
        exact bne_iff_ne.1 (List.all_eq_true.1 List.all_takeWhile c hc)
      · intro _ c hc
        have hhead := List.head?_dropWhile_not (fun d => d != '\n') ('#' :: cs)
        rw [Option.mem_def.1 hc] at hhead
        exact not_not.1 (mt bne_iff_ne.2 (by simpa using hhead))

/-- A joined line end is a backslash with one of two line ends. -/
theorem take_jointLength (h : 0 < jointLength cs) :
    ('\\' :: cs).take (1 + jointLength cs) = ['\\', '\n'] ∨
      ('\\' :: cs).take (1 + jointLength cs) = ['\\', '\r', '\n'] := by
  revert h
  rw [jointLength.eq_def]
  split
  · exact fun _ => Or.inl rfl
  · exact fun _ => Or.inr rfl
  · exact fun h => absurd h (by decide)

/-- A joined line end is skipped and kept apart. -/
theorem Reads.joint (h : Reads text ('\\' :: cs) l) (hjoint : 0 < jointLength cs) :
    Reads text (('\\' :: cs).drop (1 + jointLength cs))
      { l.skip (('\\' :: cs).take (1 + jointLength cs)) with
        joints := ⟨l.pos, (l.skip (('\\' :: cs).take (1 + jointLength cs))).pos⟩ :: l.joints } := by
  rw [← List.take_append_drop (1 + jointLength cs) ('\\' :: cs)] at h
  rcases take_jointLength hjoint with hpiece | hpiece
  · rw [hpiece] at h ⊢
    exact Covered.joint h (by decide) ⟨['\\'], rfl⟩
  · rw [hpiece] at h ⊢
    exact Covered.joint h (by decide) ⟨['\\', '\r'], rfl⟩

/-! ## One step -/

/-- The lexer has read the text up to the rest that it returns. -/
def ReadsTo (text : List Char) (result : Lexer × List Char) : Prop :=
  Reads text result.2 result.1

/-- A mark is read as far as it goes. -/
theorem Reads.mark {c : Char} (h : Reads text (c :: cs) l) (hc : c ≠ '\n') :
    ReadsTo text (l.mark (c :: cs)) := by
  rw [Lexer.mark]
  dsimp only
  split
  · exact h.emit_plain .unknown ⟨rfl, rfl⟩ 1
  · next hn =>
      have hpos : 0 < markLength (c :: cs) := Nat.pos_of_ne_zero hn
      have hplain := h.emit_take .mark rfl hpos hc
      have hhole := h.emit_take .holeEnd rfl hpos hc
      have hformat := h.emit_take .formatStart rfl hpos hc
      -- an opening bracket, a closing one, a colon, any other mark
      split
      · exact hplain
      · exact hplain
      · exact hplain
      · split
        · exact hplain
        · split
          · exact hhole
          · exact hplain
        · exact hplain
      · split
        · exact hplain
        · split
          · exact hhole
          · exact hplain
        · exact hplain
      · split
        · exact hplain
        · split
          · exact hhole
          · exact hhole
        · exact hplain
      · split
        · exact hformat
        · exact hplain
      · exact hplain

/-- A string's opening takes at least its mark. -/
theorem open?_pos {q : Quote} {n : Nat} (h : Quote.open? cs = some (q, n)) : 0 < n := by
  rw [Quote.open?] at h
  split at h
  · exact absurd h (by simp)
  · split at h
    · obtain ⟨_, rfl⟩ := Prod.mk.inj (Option.some.inj h)
      split <;> omega
    · exact absurd h (by simp)

/-- In code, a step reads a filler, a comment, a joined line end or a token. -/
theorem Reads.code (h : Reads text cs l) : ReadsTo text (l.code cs) := by
  cases cs with
  | nil => exact h
  | cons c cs =>
      rw [Lexer.code]
      split
      · next hfill => exact h.filler hfill
      · next hfill =>
          have hc := ne_newline_of_not_filler (Bool.eq_false_iff.2 hfill)
          split
          · next hhash =>
              have heq : c = '#' := beq_iff_eq.1 hhash
              subst heq
              exact h.comment
          · split
            · next hjoint =>
                rw [Bool.and_eq_true, beq_iff_eq, decide_eq_true_iff] at hjoint
                obtain ⟨rfl, hlen⟩ := hjoint
                exact h.joint hlen
            · have hl := h.settle
              dsimp only
              split
              · next q n hopen => exact hl.emit_take .stringStart rfl (open?_pos hopen) hc
              · split
                · next hstart =>
                    exact hl.emit_takeWhile .word rfl _ (isIdentifierRest_of_start hstart) hc
                · split
                  · exact hl.emit_take _ (by split <;> rfl) (Nat.succ_pos _) hc
                  · split
                    · split
                      · exact hl.emit_plain .conversion ⟨rfl, rfl⟩ 2
                      · exact hl.mark hc
                    · exact hl.mark hc

/-- In a string, a step reads content, the end of the string or the start of an expression in it. -/
theorem Reads.content (h : Reads text cs l) (q : Quote) : ReadsTo text (l.content q cs) := by
  rw [Lexer.content]
  split
  · next =>
      have hall := h.emit_plain .unknown ⟨rfl, rfl⟩ cs.length
      rw [List.take_length, List.drop_length] at hall
      exact hall
  · next c hread =>
      -- content of no length leaves no token
      have hpiece : ∀ n, Reads text (cs.drop n)
          (if 0 < n then l.emit .stringContent (cs.take n) else l) := by
        intro n
        by_cases hn : 0 < n
        · rw [if_pos hn]
          exact h.emit_plain .stringContent ⟨rfl, rfl⟩ n
        · have hzero : n = 0 := by omega
          subst hzero
          exact h
      split
      · split
        · exact (hpiece c.length).emit_plain .stringEnd ⟨rfl, rfl⟩ _
        · exact (hpiece c.length).emit_plain .holeStart ⟨rfl, rfl⟩ 1
      · split
        · exact (hpiece 0).emit_plain .stringEnd ⟨rfl, rfl⟩ _
        · exact (hpiece 0).emit_plain .holeStart ⟨rfl, rfl⟩ 1

/-- In a format specification, a step reads a piece of it, its end or the start of an expression. -/
theorem Reads.formatPiece (h : Reads text cs l) : ReadsTo text (l.formatPiece cs) := by
  unfold Lexer.formatPiece
  split
  · exact h
  · exact h.emit_plain .holeStart ⟨rfl, rfl⟩ 1
  · exact h.emit_plain .holeEnd ⟨rfl, rfl⟩ 1
  · exact h.skip_filler isFiller_newline
  · dsimp only
    generalize (fun c : Char => c != '\x7b' && c != '\x7d' && c != '\n') = isText
    rw [← List.takeWhile_append_dropWhile (p := isText) (l := cs)] at h
    exact Reads.emit_other h ⟨rfl, rfl⟩

/-- A step of the lexer reads a piece of what is left of the text. -/
theorem Reads.step (h : Reads text cs l) : ReadsTo text (l.step cs) := by
  rw [Lexer.step]
  split
  · exact h.content _
  · exact h.formatPiece
  · exact h.code

/-! ## The whole text -/

/-- A whole run reads the text up to some rest: the induction is on the steps. -/
theorem Reads.run (h : Reads text cs l) (fuel : Nat) :
    ∃ rest, Reads text rest (run fuel l cs) := by
  induction fuel generalizing l cs with
  | zero => exact ⟨cs, h⟩
  | succ fuel ih =>
      cases cs with
      | nil => exact ⟨[], h⟩
      | cons c cs => exact ih h.step

/-- The tokens at the end of the text take no room. -/
theorem Reads.finish (h : Reads text rest l) : Reads text rest l.finish := by
  rw [Lexer.finish]
  split
  · exact h.endLine.closeBlocks 0 l.indents
  · exact h.emit_nil rfl

end Lexer

/-- The tokens and joined line ends of a text are laid out in it. -/
theorem laid_lex (text : List Char) : Laid text (lex text).1 (lex text).2 := by
  obtain ⟨rest, hread⟩ := Lexer.Reads.run (l := {}) (Covered.start text) (text.length + 1)
  exact hread.finish.laid

end CallFill.Source
