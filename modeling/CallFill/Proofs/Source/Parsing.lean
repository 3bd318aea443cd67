import CallFill.Proofs.Source.Joints
import CallFill.Proofs.Source.Lexing

/-!
# The tree of a source text

Whatever the text, its tree lies in it: every part starts and ends at a boundary of characters, the
parts of a tree follow each other inside of it, arguments of calls stand between their parentheses,
and where there are none, only blanks and comments stand there (`sound_parse`). If commas and blanks
are all that stands behind the last argument, there is at most one comma (`HasOneComma`).
-/

namespace CallFill.Source

open Text Reader SyntaxTree Grammar

/-- A boundary of characters that lies in no joined line end. -/
def IsEdge (text : List Char) (joints : List Span) (n : Nat) : Prop :=
  IsBoundary text n ∧ ∀ s ∈ joints, n ≤ s.start ∨ s.stop ≤ n

/-- Commas, spaces and tabs. -/
def IsTail (cs : List Char) : Prop :=
  ∀ c ∈ cs, c = ',' ∨ c = ' ' ∨ c = '\t'

/-- There is at most one comma between two byte offsets, if commas, spaces and tabs are all that
lies there. -/
def HasOneComma (text : List Char) (a b : Nat) : Prop :=
  ∀ piece, Holds text a b piece → IsTail piece → piece.count ',' ≤ 1

variable {text : List Char} {tokens : List Token} {joints : List Span}

/-- Before anything is read the tokens of a text lie ready. -/
theorem Laid.ready (h : Laid text tokens joints) : Ready (IsEdge text joints) ⟨0, tokens⟩ where
  last_edge := ⟨isBoundary_zero text, fun s _ => Or.inl (Nat.zero_le _)⟩
  start_edge t ht := by
    refine ⟨(h.tokens_placed t ht).holds.isBoundary_start, fun s hs => ?_⟩
    have hle := (h.tokens_placed t ht).holds.le
    rcases h.apart t ht s hs with hbefore | hbehind
    · exact Or.inl (by omega)
    · exact Or.inr hbehind
  stop_edge t ht := by
    refine ⟨(h.tokens_placed t ht).holds.isBoundary_stop, fun s hs => ?_⟩
    have hle := (h.tokens_placed t ht).holds.le
    rcases h.apart t ht s hs with hbefore | hbehind
    · exact Or.inl hbefore
    · exact Or.inr (by omega)
  last_le t _ := Nat.zero_le _
  start_le_stop t ht := (h.tokens_placed t ht).holds.le
  start_lt_stop t ht := (h.tokens_placed t ht).start_lt_stop
  ordered := h.tokens_ordered

/-- Tokens lie ready also for edges of which something more is known. -/
theorem Reader.Ready.and {edge P : Nat → Prop} {r : Reader} (h : Ready edge r) (hlast : P r.last)
    (htokens : ∀ t ∈ r.rest, P t.start ∧ P t.stop) : Ready (fun n => edge n ∧ P n) r where
  last_edge := ⟨h.last_edge, hlast⟩
  start_edge t ht := ⟨h.start_edge t ht, (htokens t ht).1⟩
  stop_edge t ht := ⟨h.stop_edge t ht, (htokens t ht).2⟩
  last_le := h.last_le
  start_le_stop := h.start_le_stop
  start_lt_stop := h.start_lt_stop
  ordered := h.ordered

/-- Between the tokens of a text lie gaps. -/
theorem Laid.spaced (h : Laid text tokens joints) : Spaced (Gap text joints) ⟨0, tokens⟩ where
  length t ht := by
    obtain ⟨_, _, _, _, hstop⟩ := (h.tokens_placed t ht).holds
    exact hstop.symm
  gaps := h.gaps

/-- Two joined line ends are one, or one of them is behind the other. -/
theorem Laid.joints_apart (h : Laid text tokens joints) {s u : Span} (hs : s ∈ joints)
    (hu : u ∈ joints) : s = u ∨ s.stop ≤ u.start ∨ u.stop ≤ s.start :=
  List.Pairwise.forall_of_forall_of_flip
    (R := fun a b : Span => a = b ∨ a.stop ≤ b.start ∨ b.stop ≤ a.start)
    (fun _ _ => Or.inl rfl) (h.joints_ordered.imp fun hab => Or.inr (Or.inl hab))
    (h.joints_ordered.imp fun hab => Or.inr (Or.inr hab)) hs hu

/-- No edge cuts a joined line end, and it starts and ends at edges itself. -/
theorem Laid.uncut (h : Laid text tokens joints) {s : Span} (hs : s ∈ joints) :
    Uncut (IsEdge text joints) s := by
  have hplaced := h.joints_placed s hs
  have hstart := hplaced.start_isBoundary
  have hstop := hplaced.stop_isBoundary
  have hlong := hplaced.long
  refine ⟨hlong, ⟨hstart, fun u hu => ?_⟩, ⟨hstop, fun u hu => ?_⟩, fun n hn => hn.2 s hs⟩
  · have hulong := (h.joints_placed u hu).long
    rcases h.joints_apart hs hu with rfl | hle | hle
    · exact Or.inl (Nat.le_refl _)
    · exact Or.inl (by omega)
    · exact Or.inr hle
  · have hulong := (h.joints_placed u hu).long
    rcases h.joints_apart hs hu with rfl | hle | hle
    · exact Or.inr (Nat.le_refl _)
    · exact Or.inl hle
    · exact Or.inr (by omega)

/-- A stretch that no edge cuts is not cut by edges of which more is known, if as much is known of
its ends. -/
theorem SyntaxTree.Uncut.and {edge P : Nat → Prop} {s : Span} (h : Uncut edge s)
    (hP : P s.start ∧ P s.stop) : Uncut (fun n => edge n ∧ P n) s where
  long := h.long
  start_edge := ⟨h.start_edge, hP.1⟩
  stop_edge := ⟨h.stop_edge, hP.2⟩
  apart n hn := h.apart n hn.1

/-- Something holds of every offset where the text, a token or a joined line end starts or ends. -/
structure OfEdges (text : List Char) (tokens : List Token) (joints : List Span) (P : Nat → Prop) :
    Prop where
  zero : P 0
  stop : P (byteLength text)
  tokens : ∀ t ∈ tokens, P t.start ∧ P t.stop
  joints : ∀ s ∈ joints, P s.start ∧ P s.stop

/-! ## Commas behind the last argument -/

section Tail

variable {piece : List Char} {a b n : Nat} (hjoints : ∀ s ∈ joints, s.Placed text)

/-- What ends the arguments of a call does not end a line. -/
theorem newline_not_mem_of_isTail (h : IsTail piece) : '\n' ∉ piece := by
  intro hmem
  rcases h '\n' hmem with heq | heq | heq <;> exact absurd heq (by decide)

/-- A piece that a joined line end stops in has a line end. -/
theorem Span.Placed.newline_mem {s : Span} (hs : s.Placed text) (h : Holds text a b piece)
    (ha : a < s.stop) (hb : s.stop ≤ b) : '\n' ∈ piece := by
  obtain ⟨front, rest, rfl, _, hrest⟩ := h.split hs.line.isBoundary_start (by omega) (by omega)
  obtain ⟨newline, back, rfl, hnewline, _⟩ := hrest.split hs.line.isBoundary_stop (by omega) hb
  rw [hnewline.unique hs.line]
  simp

/-- A gap ends between characters. -/
theorem Gap.isBoundary_stop (h : Gap text joints a b) : IsBoundary text b := by
  obtain ⟨_, _, _, hholds, _⟩ := h
  exact hholds.isBoundary_stop

include hjoints

/-- No joined line end of a gap stops in a piece of commas and blanks. -/
theorem Gap.resumed_of_isTail (hgap : Gap text joints a b) (h : Holds text n b piece)
    (htail : IsTail piece) : ∃ m, a ≤ m ∧ (m = a ∨ m ≤ n) ∧ IsBlankBetween text m b := by
  obtain ⟨m, hresumed, hblank⟩ := hgap
  refine ⟨m, ?_, ?_, hblank⟩
  · rcases hresumed with rfl | ⟨s, hs, hstart, rfl⟩
    · exact Nat.le_refl m
    · have hlong := (hjoints s hs).long
      omega
  · rcases hresumed with rfl | ⟨s, hs, -, rfl⟩
    · exact Or.inl rfl
    · obtain ⟨_, hholds, _⟩ := hblank
      refine Or.inr (Nat.le_of_not_lt fun hlt => ?_)
      exact newline_not_mem_of_isTail htail ((hjoints s hs).newline_mem h hlt hholds.le)

/-- No comma stands in a gap, apart from comments. -/
theorem Gap.count_comma (hgap : Gap text joints a b) (hn : a ≤ n) (h : Holds text n b piece)
    (htail : IsTail piece) : piece.count ',' = 0 := by
  obtain ⟨m, _, hm, blank, hblank, htrivia⟩ := hgap.resumed_of_isTail hjoints h htail
  obtain ⟨before, rest, rfl, _, hrest⟩ := hblank.split h.isBoundary_start (by omega) h.le
  obtain rfl := hrest.unique h
  obtain ⟨r, hr⟩ := scan_of_append before htrivia
  cases r with
  | true =>
      -- a comment that is open goes on to the end of the piece
      have hopen : scan true rest = some true := by
        refine scan_true_of_no_newline ?_
        rintro c hc rfl
        exact newline_not_mem_of_isTail htail hc
      rw [hopen] at hr
      cases hr
  | false =>
      have hsign : '#' ∉ rest := by
        intro hmem
        rcases htail '#' hmem with heq | heq | heq <;> exact absurd heq (by decide)
      refine List.count_eq_zero.2 fun hcomma => ?_
      exact absurd (isFiller_of_scan hr hsign ',' hcomma) (by decide)

/-- Behind the last argument stands one comma at most. -/
theorem hasOneComma_of_behind (h : Behind (Gap text joints) n b) : HasOneComma text n b := by
  intro piece hpiece htail
  obtain ⟨a, hn, hgap | ⟨c, hgap, hgap'⟩⟩ := h
  · rw [hgap.count_comma hjoints hn hpiece htail]
    exact Nat.zero_le 1
  · by_cases hc : c < n
    · rw [hgap'.count_comma hjoints hc hpiece htail]
      exact Nat.zero_le 1
    -- the piece is made of what is before the one byte, this byte, and what is behind it
    · obtain ⟨m, _, hm, _, hblank, _⟩ := hgap'.resumed_of_isTail hjoints hpiece htail
      obtain rfl : m = c + 1 := by omega
      have hle := hblank.le
      obtain ⟨front, rest, rfl, hfront, hrest⟩ :=
        hpiece.split hgap.isBoundary_stop (by omega) (by omega)
      obtain ⟨one, back, rfl, hone, hback⟩ :=
        hrest.split hblank.isBoundary_start (by omega) hle
      have hcount : one.count ',' ≤ one.length := List.count_le_length
      have hlength := length_le_byteLength one
      obtain ⟨_, _, _, _, hbytes⟩ := hone
      have hfirst := hgap.count_comma hjoints hn hfront fun d hd =>
        htail d (List.mem_append_left _ hd)
      have hlast := hgap'.count_comma hjoints (Nat.le_refl _) hback fun d hd =>
        htail d (List.mem_append_right _ (List.mem_append_right _ hd))
      rw [List.count_append, List.count_append, hfirst, hlast]
      omega

end Tail

/-! ## Before and after the joined line ends are in the tree -/

/-- The grammar of a module leaves its trees in order. -/
theorem orderly_moduleGrammar : moduleGrammar.Orderly Rule.IsOne :=
  ⟨trivial, trivial⟩

/-- The grammar of a module gives the role of arguments only to argument lists. -/
theorem formed_moduleGrammar : moduleGrammar.Formed := by
  simp [moduleGrammar, Formed]

/-- The trees read from the tokens of a text lie in it in order. -/
theorem Laid.reads (h : Laid text tokens joints) {edge : Nat → Prop}
    (hready : Ready edge ⟨0, tokens⟩) (hedge : ∀ n, edge n → IsBoundary text n) {x : Reading}
    (hx : Reads Rule.definition moduleGrammar ⟨0, tokens⟩ x) :
    (∀ t ∈ x.trees, AllParts (Sound edge (Gap text joints) (Behind (Gap text joints))) t) ∧
      InOrder 0 (byteLength text) 0 x.trees := by
  have hplace := hx.inPlace Rule.reliable Rule.orderly orderly_moduleGrammar hready
  have hform := hx.wellRead Rule.formed formed_moduleGrammar hready h.spaced
  refine ⟨fun t ht u hu => ⟨hplace.placed t ht u hu, hform.wellFormed t ht u hu⟩, ?_⟩
  refine (hplace.ordered 0 fun _ _ _ => Nat.zero_le _).le_hi ?_
  exact (hedge _ (hx.advances hready).ready.last_edge).le

/-- Putting all joined line ends into a tree leaves it sound; what is left in the gaps are blanks
and comments. -/
theorem sound_foldl_insertJoint {edge : Nat → Prop} {behind : Nat → Nat → Prop} {spans : List Span}
    (hspans : ∀ s ∈ spans, Uncut edge s) {t : SyntaxTree}
    (h : AllParts (Sound edge (Gap text spans) behind) t)
    (hwithin : ∀ s ∈ spans, t.start ≤ s.start ∧ s.stop ≤ t.stop) :
    AllParts (Sound edge (IsBlankBetween text) behind)
      (spans.foldl (fun t s => t.insertJoint s) t) := by
  induction spans generalizing t with
  | nil =>
      refine h.imp fun u hu => hu.mono (fun _ hn => hn) (fun a b hgap => ?_) fun _ _ hb => hb
      obtain ⟨m, rfl | ⟨s, hs, _⟩, hblank⟩ := hgap
      · exact hblank
      · exact absurd hs List.not_mem_nil
  | cons s spans ih =>
      obtain ⟨hstart, hstop⟩ := hwithin s List.mem_cons_self
      -- a gap that goes on from this joint is filled by it; every other gap stays one
      have hfills : Fills s (Gap text (s :: spans)) (Gap text spans) := by
        rintro a b ⟨m, rfl | ⟨u, hu, hua, rfl⟩, hblank⟩
        · exact Or.inl ⟨m, Or.inl rfl, hblank⟩
        · rcases List.mem_cons.1 hu with rfl | hu
          · obtain ⟨_, hholds, _⟩ := hblank
            exact Or.inr ⟨hua, hholds.le⟩
          · exact Or.inl ⟨u.stop, Or.inr ⟨u, hu, hua, rfl⟩, hblank⟩
      refine ih (fun u hu => hspans u (List.mem_cons_of_mem s hu))
        (sound_insertJoint (hspans s List.mem_cons_self) hfills t h hstart hstop) ?_
      intro u hu
      rw [start_insertJoint, stop_insertJoint]
      exact hwithin u (List.mem_cons_of_mem s hu)

/-- The tree of a text lies in it, and its argument lists stand between parentheses; its parts start
and end where tokens and joined line ends do. -/
theorem sound_parse_of_edges {P : Nat → Prop} (hP : OfEdges text (lex text).1 (lex text).2 P) :
    AllParts (Sound (fun n => IsBoundary text n ∧ P n) (IsBlankBetween text) (HasOneComma text))
      (parse text) := by
  have hlaid := laid_lex text
  have hready : Ready (fun n => IsEdge text (lex text).2 n ∧ P n) ⟨0, (lex text).1⟩ :=
    hlaid.ready.and hP.zero hP.tokens
  -- whatever is left below the root, be it a reading or nothing, the joints are put into it
  -- afterwards
  have hroot : ∀ trees, (∀ t ∈ trees, AllParts (Sound (fun n => IsEdge text (lex text).2 n ∧ P n)
      (Gap text (lex text).2) (Behind (Gap text (lex text).2))) t) →
      InOrder 0 (byteLength text) 0 trees →
      AllParts (Sound (fun n => IsBoundary text n ∧ P n) (IsBlankBetween text) (HasOneComma text))
        ((lex text).2.foldl (fun t s => t.insertJoint s)
          (.node .module none 0 (byteLength text) trees)) := by
    intro trees htrees hordered
    have hend : IsEdge text (lex text).2 (byteLength text) :=
      ⟨isBoundary_byteLength text, fun s hs => Or.inr (hlaid.joints_placed s hs).stop_isBoundary.le⟩
    have hmodule := AllParts.of_children (t := .node .module none 0 (byteLength text) trees)
      ⟨⟨hready.last_edge, ⟨hend, hP.stop⟩, Nat.zero_le _, 0, Nat.le_refl _, hordered⟩,
        wellFormed_of_ne (by simp [SyntaxTree.role]) (by simp [SyntaxTree.kind])⟩ htrees
    refine (sound_foldl_insertJoint (fun s hs => (hlaid.uncut hs).and (hP.joints s hs)) hmodule
      ?_).imp ?_
    · intro s hs
      exact ⟨Nat.zero_le _, (hlaid.joints_placed s hs).stop_isBoundary.le⟩
    · intro u hu
      exact hu.mono (fun n hn => ⟨hn.1.1, hn.2⟩) (fun _ _ hgap => hgap)
        fun _ _ => hasOneComma_of_behind hlaid.joints_placed
  rw [parse]
  dsimp only
  cases hrun : run Rule.definition (400 * ((lex text).1.length + 2)) moduleGrammar
      ⟨0, (lex text).1⟩ with
  | none => exact hroot [] (by simp) (Nat.zero_le _)
  | some x =>
      obtain ⟨hsound, hordered⟩ :=
        hlaid.reads hready (fun n hn => hn.1.1) (reads_of_run _ _ hrun)
      exact hroot x.trees hsound hordered

/-- The tree of a text lies in it, and its argument lists stand between parentheses. -/
theorem sound_parse (text : List Char) :
    AllParts (Sound (IsBoundary text) (IsBlankBetween text) (HasOneComma text)) (parse text) := by
  have hedges : OfEdges text (lex text).1 (lex text).2 fun _ => True :=
    ⟨trivial, trivial, fun _ _ => ⟨trivial, trivial⟩, fun _ _ => ⟨trivial, trivial⟩⟩
  exact (sound_parse_of_edges hedges).imp fun u hu =>
    hu.mono (fun n hn => hn.1) (fun _ _ hgap => hgap) fun _ _ hbehind => hbehind

end CallFill.Source
