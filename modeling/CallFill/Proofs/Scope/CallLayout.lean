import CallFill.Proofs.Scope.Walk
import CallFill.Proofs.Source.Parsing
import CallFill.SourceModule

/-!
# How calls lie in the text

Of the trees that a module is read from little is asked (`SyntaxTree.Faultless`): their parts lie in
the text and nest, the parentheses of arguments among them, and the text between the parentheses of
a call without arguments has no syntax error; with one, filling the call could write what is there.
The trees of the grammar are of this kind (`Source.faultless_parse`).

A call that is read off such a tree starts no later than its opening parenthesis and reaches beyond
its closing one, and its arguments end between the two. It has arguments exactly if it records where
the last one ends. What may stand between the parentheses beside arguments is known as well as it is
of the tree (`CallLayout`). No recorded call has the place of new import lines inside.
-/

namespace CallFill

open Source SyntaxTree Text

namespace CallDef

/-- How many arguments the call has. -/
def argumentCount (c : CallDef) : Nat :=
  c.positional + c.keywords.length + c.unpacking

end CallDef

/-- A call with these offsets and so many arguments lies in a text; `gap` says what may stand
between its parentheses where it has no arguments, and `behind` what may stand behind the last. -/
structure CallLayout (text : List Char) (gap behind : Nat → Nat → Prop)
    (start stop openParen closeParen : Nat) (lastArgumentEnd : Option Nat) (argumentCount : Nat) :
    Prop where
  start_le : start ≤ openParen
  open_lt_close : openParen < closeParen
  close_lt_stop : closeParen < stop
  opening : Holds text openParen (openParen + 1) ['(']
  closing : Holds text closeParen (closeParen + 1) [')']
  last : ∀ n ∈ lastArgumentEnd, IsBoundary text n ∧ openParen < n ∧ n ≤ closeParen
  last_eq_none_iff : lastArgumentEnd = none ↔ argumentCount = 0
  gap_of_none : lastArgumentEnd = none → gap (openParen + 1) closeParen
  trailing : ∀ n ∈ lastArgumentEnd, behind n closeParen

/-- A call as it lies in a text. -/
abbrev CallDef.Placed (text : List Char) (gap behind : Nat → Nat → Prop) (c : CallDef) : Prop :=
  CallLayout text gap behind c.start c.stop c.openParen c.closeParen c.lastArgumentEnd
    c.argumentCount

/-! ## Trees that lie in a text -/

namespace Source

namespace SyntaxTree

/-- The tree of a text without a syntax error, as far as calls are concerned: its parts lie in the
text and between characters, and they nest, the parentheses of arguments among them; arguments
without a part have nothing but blanks, comments and commas between their parentheses; and a keyword
argument has a name. -/
structure Faultless (text : List Char) (tree : SyntaxTree) : Prop where
  module : tree.kind = .module
  placed : AllParts (Placed (IsBoundary text)) tree
  parenthesized : ∀ t, IsPart t tree → t.role = some .arguments →
    Parenthesized (IsBoundary text) (IsVacantBetween text) (fun _ _ => True) t
  named : ∀ t, IsPart t tree → t.kind = .keywordArgument → ∃ c ∈ t.children, c.role = some .name

/-- The tree of a module lies in a text, with so much known of what stands between parentheses. -/
structure Lies (text : List Char) (gap behind : Nat → Nat → Prop) (tree : SyntaxTree) : Prop where
  module : tree.kind = .module
  sound : AllParts (Sound (IsBoundary text) gap behind) tree
  behind_self : ∀ n, IsBoundary text n → behind n n

theorem Faultless.lies {text : List Char} {tree : SyntaxTree} (h : tree.Faultless text) :
    tree.Lies text (IsVacantBetween text) fun _ _ => True where
  module := h.module
  sound t ht := ⟨h.placed t ht, h.parenthesized t ht, h.named t ht⟩
  behind_self _ _ := trivial

end SyntaxTree

theorem kind_foldl_insertJoint (spans : List Span) (t : SyntaxTree) :
    (spans.foldl (fun t s => t.insertJoint s) t).kind = t.kind := by
  induction spans generalizing t with
  | nil => rfl
  | cons s spans ih => exact (ih (t.insertJoint s)).trans (kind_insertJoint s t)

theorem kind_parse (text : List Char) : (parse text).kind = .module := by
  rw [parse]
  exact kind_foldl_insertJoint _ _

/-- Between the parentheses of a tree of the grammar stand blanks and comments, and behind the last
argument at most one comma. -/
theorem lies_parse (text : List Char) :
    (parse text).Lies text (IsBlankBetween text) (HasOneComma text) where
  module := kind_parse text
  sound := sound_parse text
  behind_self n hn piece hpiece _ := by
    obtain rfl := hpiece.unique (holds_nil hn)
    exact Nat.zero_le 1

/-- The grammar gives trees without faults, whatever the text. -/
theorem faultless_parse (text : List Char) : (parse text).Faultless text := by
  have hsound : AllParts (Sound (IsBoundary text) (IsVacantBetween text) fun _ _ => True)
      (parse text) :=
    (sound_parse text).imp fun t ht =>
      ht.mono (fun _ h => h) (fun _ _ h => h.isVacantBetween) fun _ _ _ => trivial
  exact ⟨kind_parse text, hsound.imp fun t ht => ht.placed,
    fun t ht => (hsound t ht).wellFormed.arguments, fun t ht => (hsound t ht).wellFormed.keyword⟩

end Source

variable {text : List Char} {gap behind : Nat → Nat → Prop} {t u : SyntaxTree}

/-! ## One call -/

/-- Every argument counts: by position, by name or as an unpacked one. -/
theorem one_le_count_of_mem {edge : Nat → Prop} (source : List Char) {given : List SyntaxTree}
    {a : SyntaxTree} (ha : a ∈ given) (hform : WellFormed edge gap behind a) :
    1 ≤ (given.filter Definition.isPositional).length +
      ((given.filter fun a => a.kind = .keywordArgument).filterMap fun a =>
        (a.child? .name).map (SyntaxTree.text source)).length +
      (given.filter fun a => a.kind = .listSplat || a.kind = .dictionarySplat).length := by
  -- each of the three counts takes its own kinds, and the last one all that remain
  by_cases hkeyword : a.kind = .keywordArgument
  · obtain ⟨name, hname⟩ := Option.isSome_iff_exists.1 (child?_isSome (hform.keyword hkeyword))
    have hmem : name.text source ∈ (given.filter fun a => a.kind = .keywordArgument).filterMap
        fun a => (a.child? .name).map (SyntaxTree.text source) := by
      refine List.mem_filterMap.2 ⟨a, List.mem_filter.2 ⟨ha, decide_eq_true hkeyword⟩, ?_⟩
      rw [hname]
      rfl
    have hpos := List.length_pos_of_mem hmem
    omega
  · by_cases hsplat : a.kind = .listSplat ∨ a.kind = .dictionarySplat
    · have hmem : a ∈ given.filter fun a => a.kind = .listSplat || a.kind = .dictionarySplat := by
        refine List.mem_filter.2 ⟨ha, ?_⟩
        rw [Bool.or_eq_true, decide_eq_true_iff, decide_eq_true_iff]
        exact hsplat
      have hpos := List.length_pos_of_mem hmem
      omega
    · have hmem : a ∈ given.filter Definition.isPositional := by
        refine List.mem_filter.2 ⟨ha, ?_⟩
        rw [not_or] at hsplat
        rw [Definition.isPositional, Bool.and_eq_true, Bool.and_eq_true, bne_iff_ne, bne_iff_ne,
          bne_iff_ne]
        exact ⟨⟨hkeyword, hsplat.1⟩, hsplat.2⟩
      have hpos := List.length_pos_of_mem hmem
      omega

/-- The parentheses of a call lie within the tree of the call. -/
theorem parenthesized_within {edge : Nat → Prop} {arguments : SyntaxTree}
    (ht : AllParts (Sound edge gap behind) t) (h : t.child? .arguments = some arguments) :
    Parenthesized edge gap behind arguments ∧ t.start ≤ arguments.start ∧
      arguments.stop ≤ t.stop := by
  obtain ⟨hmem, hrole⟩ := mem_of_child? h
  have hparen := (ht.child hmem).self.wellFormed.arguments hrole
  have hlong := hparen.long
  obtain ⟨pos, _, hordered⟩ := ht.self.placed.ordered
  obtain ⟨_, hcovers, _, hstop⟩ := hordered.bounds hmem
  exact ⟨hparen, hcovers (by omega), hstop⟩

section ReadOff

variable (hbehind : ∀ n, IsBoundary text n → behind n n)

include hbehind

/-- The arguments that a call takes from between two parentheses end there. -/
theorem Outline.TakesArguments.layout {given : SyntaxTree} {call : CallDef}
    (h : Outline.TakesArguments text given call)
    (hparen : Parenthesized (IsBoundary text) gap behind given)
    (hchildren : ∀ a ∈ given.children, Sound (IsBoundary text) gap behind a)
    (hclose : call.closeParen = given.stop - 1) :
    (∀ n ∈ call.lastArgumentEnd, IsBoundary text n ∧ given.start < n ∧ n ≤ given.stop - 1) ∧
      (call.lastArgumentEnd = none ↔ call.argumentCount = 0) ∧
      (call.lastArgumentEnd = none → gap (given.start + 1) (given.stop - 1)) ∧
      ∀ n ∈ call.lastArgumentEnd, behind n (given.stop - 1) := by
  have hlong := hparen.long
  rw [CallDef.argumentCount]
  -- the end of the last argument is that of its tree in a list, and the closing parenthesis behind
  -- a generator
  cases h with
  | generator hkind hpositional hkeywords hunpacking hlast =>
      rw [hlast, hclose]
      refine ⟨?_, ?_, fun hnone => absurd hnone (by simp), ?_⟩
      · intro n hn
        obtain rfl := Option.mem_some.1 hn
        exact ⟨hparen.closing_edge, by omega, Nat.le_refl _⟩
      · refine iff_of_false (by simp) ?_
        omega
      · intro n hn
        obtain rfl := Option.mem_some.1 hn
        exact hbehind _ hparen.closing_edge
  | list hkind hpositional hkeywords hunpacking hlast =>
      rw [hlast, hpositional, hkeywords, hunpacking]
      refine ⟨?_, ?_, fun hnone => ?_, ?_⟩
      · intro n hn
        obtain ⟨a, ha, rfl⟩ := Option.map_eq_some_iff.1 (Option.mem_def.1 hn)
        have hmem := List.mem_of_getLast? ha
        obtain ⟨hfirst, _, hle, hbefore⟩ := hparen.ordered.bounds hmem
        exact ⟨(hchildren a hmem).placed.stop_edge, by omega, hbefore⟩
      · rw [Option.map_eq_none_iff, List.getLast?_eq_none_iff]
        constructor
        · intro hempty
          rw [hempty]
          rfl
        · intro hzero
          cases hgiven : given.children with
          | nil => rfl
          | cons a rest =>
              have ha : a ∈ given.children := by
                rw [hgiven]
                exact List.mem_cons_self
              have hcount := one_le_count_of_mem text ha (hchildren a ha).wellFormed
              exact absurd hzero (Nat.ne_of_gt hcount)
      · exact hparen.gap_of_empty
          (List.getLast?_eq_none_iff.1 (Option.map_eq_none_iff.1 hnone))
      · intro n hn
        obtain ⟨a, ha, rfl⟩ := Option.map_eq_some_iff.1 (Option.mem_def.1 hn)
        have hmem := List.mem_of_getLast? ha
        have hfirst := (hparen.ordered.bounds hmem).1
        have hle := (hchildren a hmem).placed.start_le_stop
        refine hparen.trailing hkind a.stop (by omega) fun c hc => ?_
        exact hparen.ordered.stop_le_getLast ha hc

/-- A call that is read off a tree of the text lies in the text, and takes up the tree. -/
theorem Outline.placed_of_callOf? {here : Outline.Place} {call : CallDef}
    (ht : AllParts (Sound (IsBoundary text) gap behind) t)
    (h : Outline.callOf? text here t = some call) :
    call.Placed text gap behind ∧ call.start = t.start ∧ call.stop = t.stop := by
  obtain ⟨callee, given, hread⟩ := Outline.readOff_of_callOf? h
  obtain ⟨hparen, hstart, hstop⟩ := parenthesized_within ht hread.arguments
  have hlong := hparen.long
  obtain ⟨hlast, hnone, hgap, htrailing⟩ := hread.takes.layout hbehind hparen
    (fun a ha => ((ht.child (mem_of_child? hread.arguments).1).child ha).self) hread.closeParen_eq
  have hopening := slice?_eq_some_iff.1 hread.opening
  have hclosing := slice?_eq_some_iff.1 hread.closing
  rw [← hread.openParen_eq] at hstart hlong hlast hgap hopening
  rw [← hread.closeParen_eq] at hlast hgap htrailing hclosing
  have hclose := hread.closeParen_eq
  rw [← hread.stop_eq] at hstop
  rw [← hread.start_eq] at hstart
  exact ⟨⟨hstart, by omega, by omega, hopening, hclosing, hlast, hnone, hgap, htrailing⟩,
    hread.start_eq, hread.stop_eq⟩

end ReadOff

/-! ## The calls of a module -/

/-- New import lines go to the start of the text or behind a statement. -/
theorem Definition.importOffset_cases (statements : List SyntaxTree) :
    Definition.importOffset statements = 0 ∨
      ∃ s ∈ statements, Definition.importOffset statements = s.stop := by
  rw [Definition.importOffset]
  cases hlast : Definition.lastImportEnd? statements with
  | some n =>
      obtain ⟨s, hs, rfl⟩ := Option.map_eq_some_iff.1 hlast
      exact Or.inr ⟨s, (List.mem_filter.1 (List.mem_of_getLast? hs)).1, rfl⟩
  | none =>
      show Definition.docstringEnd statements = 0 ∨ _
      cases statements with
      | nil => exact Or.inl rfl
      | cons first rest =>
          rw [Definition.docstringEnd]
          split
          · exact Or.inr ⟨first, List.mem_cons_self, rfl⟩
          · exact Or.inl rfl

namespace SourceModule

variable {path source : String} {tree : SyntaxTree} {call : CallDef}
  (hlies : tree.Lies source.toList gap behind)

include hlies

/-- New import lines go between characters. -/
theorem isBoundary_importOffset (path : String) :
    IsBoundary source.toList (ofTree path source tree).importOffset := by
  show IsBoundary _ (Definition.importOffset _)
  rcases Definition.importOffset_cases tree.children with hzero | ⟨s, hs, hoffset⟩
  · rw [hzero]
    exact isBoundary_zero _
  · rw [hoffset]
    exact (hlies.sound.child hs).self.placed.stop_edge

variable (h : call ∈ (ofTree path source tree).outline.calls)

include h

/-- Every call of a module is read off a tree inside one of its statements. -/
theorem exists_tree_of_mem_calls : ∃ s ∈ tree.children, ∃ u, IsPart u s ∧
    AllParts (Sound (IsBoundary source.toList) gap behind) u ∧
    call.Placed source.toList gap behind ∧ call.start = u.start ∧ call.stop = u.stop := by
  obtain ⟨s, hs, u, here, hu, -, hcall⟩ := Outline.exists_part_of_mem_ofTree hlies.module h
  have hpart : AllParts (Sound (IsBoundary source.toList) gap behind) u :=
    fun v hv => hlies.sound v (IsPart.inside hs (hv.trans hu))
  exact ⟨s, hs, u, hu, hpart, Outline.placed_of_callOf? hlies.behind_self hpart hcall⟩

/-- A call starts and ends between characters of the text. -/
theorem isBoundary_of_mem_calls :
    IsBoundary source.toList call.start ∧ IsBoundary source.toList call.stop := by
  obtain ⟨_, _, u, _, hpart, _, hstart, hstop⟩ := exists_tree_of_mem_calls hlies h
  rw [hstart, hstop]
  exact ⟨hpart.self.placed.start_edge, hpart.self.placed.stop_edge⟩

/-- The calls of a module lie in its text, and new import lines do not go inside of one. -/
theorem placed_of_mem_calls : call.Placed source.toList gap behind ∧
    ((ofTree path source tree).importOffset ≤ call.start ∨
      call.stop ≤ (ofTree path source tree).importOffset) := by
  obtain ⟨s, hs, u, hu, _, hplaced, hstart, hstop⟩ := exists_tree_of_mem_calls hlies h
  refine ⟨hplaced, ?_⟩
  have hopen := hplaced.start_le
  have hclose := hplaced.open_lt_close
  have hbehind := hplaced.close_lt_stop
  have hplacedIn : AllParts (SyntaxTree.Placed (IsBoundary source.toList)) s :=
    (hlies.sound.child hs).imp fun _ hv => hv.placed
  obtain ⟨hfirst, hlast⟩ := hu.within hplacedIn (by omega)
  show Definition.importOffset _ ≤ _ ∨ _ ≤ Definition.importOffset _
  -- new lines go behind a whole statement, and the call is inside of one
  rcases Definition.importOffset_cases tree.children with hzero | ⟨s', hs', hoffset⟩
  · exact Or.inl (by omega)
  · obtain ⟨pos, _, hordered⟩ := hlies.sound.self.placed.ordered
    have hle := (hordered.bounds hs').2.2.1
    rcases hordered.apart hs hs' with rfl | hbefore | hbefore
    · exact Or.inr (by omega)
    · exact Or.inr (by omega)
    · exact Or.inl (by omega)

end SourceModule

end CallFill
