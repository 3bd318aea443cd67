import CallFill.Proofs.Scope.CallLayout

/-!
# Comments

Comments are no tokens: they lie between the tokens of a text, and no tree has an end inside of one.
So the places where a call is edited, and the place of new import lines, are outside of comments.
-/

namespace CallFill

open Source SyntaxTree Text

namespace Source

/-- A comment of a text, or the first characters of one: nothing of a token or a joined line end
lies in it. -/
structure IsComment (text : List Char) (start stop : Nat) (piece : List Char) : Prop where
  holds : Holds text start stop piece
  sign : ∃ body, piece = '#' :: body
  line : '\n' ∉ piece
  tokens : ∀ t ∈ (lex text).1, t.stop ≤ start ∨ stop ≤ t.start
  joints : ∀ s ∈ (lex text).2, s.stop ≤ start ∨ stop ≤ s.start

/-- A byte offset that no comment of a text has inside. -/
def OutsideComments (text : List Char) (n : Nat) : Prop :=
  ∀ start stop piece, IsComment text start stop piece → n ≤ start ∨ stop ≤ n

variable {text piece : List Char} {start stop : Nat}

theorem IsComment.start_lt_stop (h : IsComment text start stop piece) : start < stop := by
  obtain ⟨_, _, _, _, hstop⟩ := h.holds
  obtain ⟨body, rfl⟩ := h.sign
  have hpos := byteLength_pos (List.cons_ne_nil '#' body)
  omega

/-- Texts, tokens and joined line ends start and end outside of comments. -/
theorem ofEdges_outsideComments (text : List Char) :
    OfEdges text (lex text).1 (lex text).2 (OutsideComments text) where
  zero _ _ _ _ := Or.inl (Nat.zero_le _)
  stop _ _ _ h := Or.inr h.holds.isBoundary_stop.le
  tokens t ht := by
    have hle := ((laid_lex text).tokens_placed t ht).holds.le
    refine ⟨fun start stop piece h => ?_, fun start stop piece h => ?_⟩
    · rcases h.tokens t ht with hbefore | hbehind
      · exact Or.inl (by omega)
      · exact Or.inr hbehind
    · rcases h.tokens t ht with hbefore | hbehind
      · exact Or.inl hbefore
      · exact Or.inr (by omega)
  joints s hs := by
    have hlong := ((laid_lex text).joints_placed s hs).long
    refine ⟨fun start stop piece h => ?_, fun start stop piece h => ?_⟩
    · rcases h.joints s hs with hbefore | hbehind
      · exact Or.inl (by omega)
      · exact Or.inr hbehind
    · rcases h.joints s hs with hbefore | hbehind
      · exact Or.inl hbefore
      · exact Or.inr (by omega)

/-- The parts of a text's tree start and end outside of comments. -/
theorem sound_parse_outsideComments (text : List Char) :
    AllParts (Sound (OutsideComments text) (IsBlankBetween text) (HasOneComma text)) (parse text) :=
  (sound_parse_of_edges (ofEdges_outsideComments text)).imp fun _ hu =>
    hu.mono (fun _ hn => hn.2) (fun _ _ hgap => hgap) fun _ _ hbehind => hbehind

end Source

/-! ## Where calls are edited -/

/-- The offsets at which a call with these parentheses is edited have a property. -/
structure EditOffsets (P : Nat → Prop) (openParen closeParen : Nat) (lastArgumentEnd : Option Nat) :
    Prop where
  opening : P (openParen + 1)
  closing : P closeParen
  last : ∀ n ∈ lastArgumentEnd, P n

/-- The offsets at which a call is edited have a property. -/
abbrev CallDef.EditedAt (P : Nat → Prop) (c : CallDef) : Prop :=
  EditOffsets P c.openParen c.closeParen c.lastArgumentEnd

variable {text : List Char} {t : SyntaxTree}

/-- A call that is read off a tree is edited where trees and their parentheses start and end. -/
theorem Outline.editedAt_of_callOf? {edge : Nat → Prop} {gap behind : Nat → Nat → Prop}
    {here : Outline.Place} {call : CallDef} (ht : AllParts (Sound edge gap behind) t)
    (h : Outline.callOf? text here t = some call) : call.EditedAt edge := by
  rw [Outline.callOf?] at h
  split at h
  · next function arguments hfunction harguments =>
      dsimp only at h
      split at h
      · obtain ⟨hparen, _, _⟩ := parenthesized_within ht harguments
        split at h
        · obtain rfl := Option.some.inj h
          refine ⟨hparen.opening_edge, hparen.closing_edge, fun n hn => ?_⟩
          rw [← Option.mem_some.1 hn]
          exact hparen.closing_edge
        · obtain rfl := Option.some.inj h
          refine ⟨hparen.opening_edge, hparen.closing_edge, fun n hn => ?_⟩
          obtain ⟨a, ha, rfl⟩ := Option.map_eq_some_iff.1 (Option.mem_def.1 hn)
          have hpart := (ht.child (mem_of_child? harguments).1).child (List.mem_of_getLast? ha)
          exact hpart.self.placed.stop_edge
      · cases h
  · cases h

/-- The calls of a module are edited outside of comments. -/
theorem SourceModule.editedAt_of_mem_calls {path text : String} {call : CallDef}
    (h : call ∈ (SourceModule.ofText path text).outline.calls) :
    call.EditedAt (OutsideComments text.toList) := by
  obtain ⟨s, hs, u, here, hu, -, hcall⟩ :=
    Outline.exists_part_of_mem_ofTree (kind_parse text.toList) h
  have hpart : AllParts (Sound (OutsideComments text.toList) (IsBlankBetween text.toList)
      (HasOneComma text.toList)) u :=
    fun v hv => sound_parse_outsideComments text.toList v (IsPart.inside hs (hv.trans hu))
  exact Outline.editedAt_of_callOf? hpart hcall

/-- New import lines go outside of comments. -/
theorem SourceModule.outsideComments_importOffset (path text : String) :
    OutsideComments text.toList (SourceModule.ofText path text).importOffset := by
  show OutsideComments _ (Definition.importOffset _)
  rcases Definition.importOffset_cases (parse text.toList).children with hzero | ⟨s, hs, hoffset⟩
  · rw [hzero]
    exact fun _ _ _ _ => Or.inl (Nat.zero_le _)
  · rw [hoffset]
    exact ((sound_parse_outsideComments text.toList).child hs).self.placed.stop_edge

end CallFill
