import Mathlib.Data.List.Infix
import CallFill.Proofs.Source.Trivia
import CallFill.Proofs.Text.Boundary

/-!
# How tokens lie in the text

The tokens of a text cover pieces of it, in order and without overlap, and so do the joined line
ends between them (`Laid`). Before a token that code is made of nothing but blanks, comments and
joined line ends is passed over (`Gaps`). The lexer keeps this for the part of the text it has read
(`Lexer.Reads`): each of its steps takes one piece off what is left.
-/

namespace CallFill.Source

open Text

/-- The kinds of tokens that code begins with; they take up room. -/
def TokenKind.isCode : TokenKind → Bool
  | .word | .integer | .float | .mark | .stringStart => true
  | _ => false

/-- The kinds of tokens for line ends and indentation; they take up no room. -/
def TokenKind.isLayout : TokenKind → Bool
  | .newline | .indent | .dedent => true
  | _ => false

/-- All tokens but those of the layout take up room. -/
theorem Token.isSolid_eq (t : Token) : t.isSolid = !t.kind.isLayout := by
  rw [Token.isSolid]
  cases t.kind <;> rfl

/-- A token covers its text. -/
structure Token.Placed (text : List Char) (t : Token) : Prop where
  holds : Holds text t.start t.stop t.text.toList
  start_lt_stop : t.kind.isCode = true → t.start < t.stop

/-- A joined line end covers a backslash and at least one character more, the last one of which
ends a line. -/
structure Span.Placed (text : List Char) (s : Span) : Prop where
  start_isBoundary : IsBoundary text s.start
  line : Holds text (s.stop - 1) s.stop ['\n']
  long : s.start + 2 ≤ s.stop

/-- A joined line end ends between characters. -/
theorem Span.Placed.stop_isBoundary {text : List Char} {s : Span} (h : s.Placed text) :
    IsBoundary text s.stop :=
  h.line.isBoundary_stop

/-- Only blanks and comments lie between two byte offsets. -/
def IsBlankBetween (text : List Char) (a b : Nat) : Prop :=
  ∃ piece, Holds text a b piece ∧ IsTrivia piece

/-- Only blanks, comments and commas lie between two byte offsets. -/
def IsVacantBetween (text : List Char) (a b : Nat) : Prop :=
  ∃ piece, Holds text a b piece ∧ IsVacant piece

/-- Blanks and comments are vacant, with or without commas. -/
theorem IsBlankBetween.isVacantBetween {text : List Char} {a b : Nat}
    (h : IsBlankBetween text a b) : IsVacantBetween text a b := by
  obtain ⟨piece, hpiece, htrivia⟩ := h
  exact ⟨piece, hpiece, htrivia.isVacant⟩

/-- A byte offset, or the end of a joined line end behind it. -/
def IsResumed (joints : List Span) (a m : Nat) : Prop :=
  m = a ∨ ∃ s ∈ joints, a ≤ s.start ∧ s.stop = m

/-- From a byte offset, or from a joined line end behind it, only blanks and comments lie before
another one. -/
def Gap (text : List Char) (joints : List Span) (a b : Nat) : Prop :=
  ∃ m, IsResumed joints a m ∧ IsBlankBetween text m b

/-- A relation holds of the end of a token and the start of the next one that takes up room, if code
begins with this. -/
def Gaps (gap : Nat → Nat → Prop) (tokens : List Token) : Prop :=
  ∀ a skipped b, a :: (skipped ++ [b]) <:+: tokens → (∀ t ∈ skipped, t.isSolid = false) →
    b.kind.isCode = true → gap a.stop b.start

/-- The tokens and joined line ends of a text, as they lie in it. -/
structure Laid (text : List Char) (tokens : List Token) (joints : List Span) : Prop where
  tokens_placed : ∀ t ∈ tokens, t.Placed text
  tokens_ordered : tokens.Pairwise fun a b => a.stop ≤ b.start
  joints_placed : ∀ s ∈ joints, s.Placed text
  joints_ordered : joints.Pairwise fun a b => a.stop ≤ b.start
  apart : ∀ t ∈ tokens, ∀ s ∈ joints, t.stop ≤ s.start ∨ s.stop ≤ t.start
  gaps : Gaps (Gap text joints) tokens

/-- With more joined line ends, an offset is still one to go on from. -/
theorem IsResumed.mono {joints more : List Span} {a m : Nat} (h : IsResumed joints a m)
    (hsub : ∀ s ∈ joints, s ∈ more) : IsResumed more a m := by
  rcases h with hsame | ⟨s, hs, hstart, hstop⟩
  · exact Or.inl hsame
  · exact Or.inr ⟨s, hsub s hs, hstart, hstop⟩

/-- With more joined line ends, a gap is still one. -/
theorem Gap.mono {text : List Char} {joints more : List Span} {a b : Nat}
    (h : Gap text joints a b) (hsub : ∀ s ∈ joints, s ∈ more) : Gap text more a b := by
  obtain ⟨m, hresumed, hblank⟩ := h
  exact ⟨m, hresumed.mono hsub, hblank⟩

theorem Gaps.imp {gap gap' : Nat → Nat → Prop} {tokens : List Token} (h : Gaps gap tokens)
    (himp : ∀ a b, gap a b → gap' a b) : Gaps gap' tokens :=
  fun a skipped b hinside hskipped hcode => himp _ _ (h a skipped b hinside hskipped hcode)

/-! ## What the lexer has read -/

/-- A comment that is still being read is read up to the end of its line. -/
def CanPause (inComment : Bool) (rest : List Char) : Prop :=
  inComment = true → ∀ c ∈ rest.head?, c = '\n'

/-- What lies behind a token, as far as it has been read. -/
def OpenGap (text rest : List Char) (joints : List Span) (a pos : Nat) : Prop :=
  ∃ m piece s, IsResumed joints a m ∧ Holds text m pos piece ∧ scan false piece = some s ∧
    CanPause s rest

/-- A text has been read up to a rest, with these tokens and joined line ends, last one first. -/
structure Covered (text rest : List Char) (pos : Nat) (tokens : List Token) (joints : List Span) :
    Prop where
  read : ∃ before, text = before ++ rest ∧ byteLength before = pos
  tokens_placed : ∀ t ∈ tokens, t.Placed text
  tokens_le : ∀ t ∈ tokens, t.stop ≤ pos
  tokens_ordered : tokens.Pairwise fun later earlier => earlier.stop ≤ later.start
  joints_placed : ∀ s ∈ joints, s.Placed text
  joints_le : ∀ s ∈ joints, s.stop ≤ pos
  joints_ordered : joints.Pairwise fun later earlier => earlier.stop ≤ later.start
  apart : ∀ t ∈ tokens, ∀ s ∈ joints, t.stop ≤ s.start ∨ s.stop ≤ t.start
  gaps : Gaps (Gap text joints) tokens.reverse
  last : ∀ a skipped, a :: skipped <:+ tokens.reverse → (∀ t ∈ skipped, t.isSolid = false) →
    OpenGap text rest joints a.stop pos

namespace Covered

variable {text rest cs : List Char} {pos : Nat} {tokens : List Token} {joints : List Span}

theorem start (text : List Char) : Covered text text 0 [] [] where
  read := ⟨[], rfl, rfl⟩
  tokens_placed := by simp
  tokens_le := by simp
  tokens_ordered := List.Pairwise.nil
  joints_placed := by simp
  joints_le := by simp
  joints_ordered := List.Pairwise.nil
  apart := by simp
  gaps _ _ _ hinside := absurd (List.infix_nil.1 hinside) (List.cons_ne_nil _ _)
  last _ _ hsuffix := absurd (List.suffix_nil.1 hsuffix) (List.cons_ne_nil _ _)

/-- What has been read last lies before the offset of the rest. -/
theorem holds (h : Covered text (cs ++ rest) pos tokens joints) :
    Holds text pos (pos + byteLength cs) cs := by
  obtain ⟨before, htext, hpos⟩ := h.read
  exact ⟨before, rest, htext, hpos, rfl⟩

theorem read_append (h : Covered text (cs ++ rest) pos tokens joints) :
    ∃ before, text = before ++ rest ∧ byteLength before = pos + byteLength cs := by
  obtain ⟨before, htext, hpos⟩ := h.read
  refine ⟨before ++ cs, ?_, ?_⟩
  · rw [htext, List.append_assoc]
  · rw [byteLength_append, hpos]

/-- Reading a token. Code tokens are not empty and do not start with a line end, so that no comment
reaches them. -/
theorem token (h : Covered text (cs ++ rest) pos tokens joints) (kind : TokenKind)
    (hcode : kind.isCode = true → ∃ c tail, cs = c :: tail ∧ c ≠ '\n')
    (hlayout : kind.isLayout = true → cs = []) :
    Covered text rest (pos + byteLength cs)
      (⟨kind, String.ofList cs, pos, pos + byteLength cs⟩ :: tokens) joints := by
  refine ⟨h.read_append, ?_, ?_, ?_, h.joints_placed, ?_, h.joints_ordered, ?_, ?_, ?_⟩
  · intro t ht
    rcases List.mem_cons.1 ht with rfl | ht
    · refine ⟨?_, ?_⟩
      · show Holds text pos (pos + byteLength cs) (String.ofList cs).toList
        rw [String.toList_ofList]
        exact h.holds
      · intro hkind
        obtain ⟨c, tail, rfl, _⟩ := hcode hkind
        have hpos := byteLength_pos (List.cons_ne_nil c tail)
        show pos < pos + byteLength (c :: tail)
        omega
    · exact h.tokens_placed t ht
  · intro t ht
    rcases List.mem_cons.1 ht with rfl | ht
    · exact Nat.le_refl _
    · exact Nat.le_trans (h.tokens_le t ht) (Nat.le_add_right _ _)
  · exact List.pairwise_cons.2 ⟨h.tokens_le, h.tokens_ordered⟩
  · intro s hs
    exact Nat.le_trans (h.joints_le s hs) (Nat.le_add_right _ _)
  · intro t ht s hs
    rcases List.mem_cons.1 ht with rfl | ht
    · exact Or.inr (h.joints_le s hs)
    · exact h.apart t ht s hs
  · rw [List.reverse_cons]
    intro a skipped b hinside hskipped hkind
    rcases List.infix_concat_iff.1 hinside with hsuffix | hinside
    · rcases List.suffix_concat_iff.1 hsuffix with hnil | ⟨front, hfront, hread⟩
      · exact absurd hnil (List.cons_ne_nil _ _)
      · rw [← List.cons_append] at hfront
        obtain ⟨rfl, hlast⟩ := List.append_inj' hfront rfl
        obtain ⟨rfl, _⟩ := List.cons.inj hlast
        obtain ⟨c, tail, rfl, hc⟩ := hcode hkind
        obtain ⟨m, piece, s, hresumed, hpiece, hscan, hpause⟩ := h.last a skipped hread hskipped
        -- what lies between the two is closed now: no comment can still be open, for a comment goes
        -- on to a line end
        cases s with
        | false => exact ⟨m, hresumed, piece, hpiece, hscan⟩
        | true => exact absurd (hpause rfl c (Option.mem_some_self c)) hc
    · exact h.gaps a skipped b hinside hskipped hkind
  · rw [List.reverse_cons]
    intro a skipped hsuffix hskipped
    rcases List.suffix_concat_iff.1 hsuffix with hnil | ⟨front, hfront, hread⟩
    · exact absurd hnil (List.cons_ne_nil _ _)
    · cases front with
      | nil =>
          obtain ⟨rfl, rfl⟩ := List.cons.inj hfront
          exact ⟨_, [], false, Or.inl rfl, holds_nil h.holds.isBoundary_stop, rfl,
            fun hfalse => absurd hfalse (by decide)⟩
      | cons a' skipped' =>
          obtain ⟨rfl, rfl⟩ := List.cons.inj hfront
          -- the token has no room, so what was read before it still goes up to here
          have hplain := hskipped _ (List.mem_append_right skipped' (List.mem_singleton_self _))
          rw [Token.isSolid_eq, Bool.not_eq_false'] at hplain
          obtain rfl := hlayout hplain
          exact h.last a skipped' hread fun t ht => hskipped t (List.mem_append_left _ ht)

/-- Passing over blanks or a comment. -/
theorem skip (h : Covered text (cs ++ rest) pos tokens joints)
    (hscan : ∀ s, CanPause s (cs ++ rest) → ∃ t, scan s cs = some t ∧ CanPause t rest) :
    Covered text rest (pos + byteLength cs) tokens joints := by
  refine ⟨h.read_append, h.tokens_placed, ?_, h.tokens_ordered, h.joints_placed, ?_,
    h.joints_ordered, h.apart, h.gaps, ?_⟩
  · intro t ht
    exact Nat.le_trans (h.tokens_le t ht) (Nat.le_add_right _ _)
  · intro s hs
    exact Nat.le_trans (h.joints_le s hs) (Nat.le_add_right _ _)
  · intro a skipped hsuffix hskipped
    obtain ⟨m, piece, s, hresumed, hpiece, hs, hpause⟩ := h.last a skipped hsuffix hskipped
    obtain ⟨s', hs', hpause'⟩ := hscan s hpause
    refine ⟨m, piece ++ cs, s', hresumed, hpiece.append h.holds, ?_, hpause'⟩
    rw [scan_append, hs]
    exact hs'

/-- Passing over a joined line end. -/
theorem joint (h : Covered text (cs ++ rest) pos tokens joints) (hlong : 2 ≤ byteLength cs)
    (hline : ∃ before, cs = before ++ ['\n']) :
    Covered text rest (pos + byteLength cs) tokens (⟨pos, pos + byteLength cs⟩ :: joints) := by
  have hsub : ∀ s ∈ joints, s ∈ (⟨pos, pos + byteLength cs⟩ : Span) :: joints :=
    fun s hs => List.mem_cons_of_mem _ hs
  refine ⟨h.read_append, h.tokens_placed, ?_, h.tokens_ordered, ?_, ?_, ?_, ?_, ?_, ?_⟩
  · intro t ht
    exact Nat.le_trans (h.tokens_le t ht) (Nat.le_add_right _ _)
  · intro s hs
    rcases List.mem_cons.1 hs with rfl | hs
    · obtain ⟨before, rfl⟩ := hline
      refine ⟨h.holds.isBoundary_start, ?_, Nat.add_le_add_left hlong pos⟩
      have hbytes : byteLength (before ++ ['\n']) = byteLength before + 1 := byteLength_append _ _
      obtain ⟨front, back, htext, hstart, _⟩ := h.holds
      show Holds text (pos + byteLength (before ++ ['\n']) - 1)
        (pos + byteLength (before ++ ['\n'])) ['\n']
      rw [hbytes]
      refine ⟨front ++ before, back, ?_, ?_, ?_⟩
      · rw [htext, List.append_assoc, List.append_assoc]
      · rw [byteLength_append, hstart]
        rfl
      · rfl
    · exact h.joints_placed s hs
  · intro s hs
    rcases List.mem_cons.1 hs with rfl | hs
    · exact Nat.le_refl _
    · exact Nat.le_trans (h.joints_le s hs) (Nat.le_add_right _ _)
  · exact List.pairwise_cons.2 ⟨h.joints_le, h.joints_ordered⟩
  · intro t ht s hs
    rcases List.mem_cons.1 hs with rfl | hs
    · exact Or.inl (h.tokens_le t ht)
    · exact h.apart t ht s hs
  · exact h.gaps.imp fun _ _ hgap => hgap.mono hsub
  -- behind the joint nothing has been read yet, whichever token came last
  · intro a skipped hsuffix _
    have hle := h.tokens_le a (List.mem_reverse.1 (hsuffix.subset List.mem_cons_self))
    exact ⟨_, [], false, Or.inr ⟨_, List.mem_cons_self, hle, rfl⟩,
      holds_nil h.holds.isBoundary_stop, rfl, fun hfalse => absurd hfalse (by decide)⟩

/-- The tokens and joined line ends in the order of the text. -/
theorem laid (h : Covered text rest pos tokens joints) :
    Laid text tokens.reverse joints.reverse where
  tokens_placed t ht := h.tokens_placed t (List.mem_reverse.1 ht)
  tokens_ordered := List.pairwise_reverse.2 h.tokens_ordered
  joints_placed s hs := h.joints_placed s (List.mem_reverse.1 hs)
  joints_ordered := List.pairwise_reverse.2 h.joints_ordered
  apart t ht s hs := h.apart t (List.mem_reverse.1 ht) s (List.mem_reverse.1 hs)
  gaps := h.gaps.imp fun _ _ hgap => hgap.mono fun _ hs => List.mem_reverse.2 hs

end Covered

end CallFill.Source
