import CallFill.Proofs.Source.Parsing
import CallFill.Proofs.Text.Names

/-!
# Names in a tree

Whatever the text, a tree of it that is an identifier covers an identifier of the text, a class or
function that is defined has such a tree as its name, and the body of a statement is no class or
function itself (`named_parse`). The lexer makes words of identifiers only, and in the rules an
identifier is always a word and a body always a block.
-/

namespace CallFill.Source

open Text Reader SyntaxTree Grammar

/-! ## Words are identifiers -/

namespace Lexer

/-- The words read so far are identifiers. -/
def SpellsWords (l : Lexer) : Prop :=
  ∀ t ∈ l.tokens, t.kind = .word → IsIdentifier t.text.toList

variable {l : Lexer} {cs : List Char}

/-- A token may be added if it is no word, or one that spells a name. -/
theorem SpellsWords.emit (h : l.SpellsWords) {kind : TokenKind}
    (hword : kind = .word → IsIdentifier cs) : (l.emit kind cs).SpellsWords := by
  intro t ht hkind
  rcases List.mem_cons.1 ht with rfl | ht
  · show IsIdentifier (String.ofList cs).toList
    rw [String.toList_ofList]
    exact hword hkind
  · exact h t ht hkind

/-- Tokens that are no words say nothing about words. -/
theorem SpellsWords.emit_other (h : l.SpellsWords) (kind : TokenKind) (cs : List Char)
    (hkind : kind ≠ .word := by decide) : (l.emit kind cs).SpellsWords :=
  h.emit fun hword => absurd hword hkind

/-- The token that ends a line is no word. -/
theorem SpellsWords.endLine (h : l.SpellsWords) : l.endLine.SpellsWords := by
  rw [Lexer.endLine]
  split
  · exact h.emit_other .newline []
  · exact h

theorem SpellsWords.closeBlocks (h : l.SpellsWords) (width : Nat) (indents : List Nat) :
    (closeBlocks width indents l).SpellsWords := by
  induction indents generalizing l with
  | nil => exact h
  | cons i indents ih =>
      rw [Lexer.closeBlocks]
      split
      · exact ih (h.emit_other .dedent [])
      · exact h

/-- Starting a line adds no words, be it indented or not. -/
theorem SpellsWords.settle (h : l.SpellsWords) : l.settle.SpellsWords := by
  rw [Lexer.settle]
  cases l.width with
  | none => exact h
  | some width =>
      have hl : SpellsWords { l with width := none } := h
      show SpellsWords (if _ then if _ then _ else _ else _)
      split
      · split
        · exact hl.emit_other .indent []
        · exact hl
      · exact hl.closeBlocks width l.indents

/-- What stands between tokens adds no words. -/
theorem SpellsWords.filler (h : l.SpellsWords) (c : Char) : (l.filler c).SpellsWords := by
  have hl : SpellsWords { l with width := l.width.map (widen · c) } := h
  rw [Lexer.filler]
  show SpellsWords (if _ then _ else _)
  split
  · exact hl.endLine
  · exact hl

/-- Marks are no words, those that open and close brackets included. -/
theorem SpellsWords.mark (h : l.SpellsWords) (cs : List Char) : (l.mark cs).1.SpellsWords := by
  rw [Lexer.mark]
  dsimp only
  have hmark := h.emit_other .mark (cs.take (markLength cs))
  have hhole := h.emit_other .holeEnd (cs.take (markLength cs))
  split
  · exact h.emit_other .unknown _
  · split
    · exact hmark
    · exact hmark
    · exact hmark
    · split
      · exact hmark
      · split
        · exact hhole
        · exact hmark
      · exact hmark
    · split
      · exact hmark
      · split
        · exact hhole
        · exact hmark
      · exact hmark
    · split
      · exact hmark
      · split
        · exact hhole
        · exact hhole
      · exact hmark
    · split
      · exact h.emit_other .formatStart _
      · exact hmark
    · exact hmark

/-- What is read as a word begins as an identifier does and goes on as one. -/
theorem isIdentifier_takeWhile {c : Char} (hc : isIdentifierStart c = true) (cs : List Char) :
    IsIdentifier ((c :: cs).takeWhile isIdentifierRest) := by
  rw [List.takeWhile_cons_of_pos (isIdentifierRest_of_start hc)]
  exact ⟨hc, fun d hd => List.all_eq_true.1 List.all_takeWhile d hd⟩

/-- In code, a word is made of the characters of a name from its first one on. -/
theorem SpellsWords.code (h : l.SpellsWords) (cs : List Char) : (l.code cs).1.SpellsWords := by
  cases cs with
  | nil => exact h
  | cons c cs =>
      rw [Lexer.code]
      split
      · exact h.filler c
      · split
        · exact h
        · split
          · exact h
          · have hl := h.settle
            dsimp only
            split
            · exact hl.emit_other .stringStart _
            · split
              · next hstart => exact hl.emit fun _ => isIdentifier_takeWhile hstart cs
              · split
                · split
                  · exact hl.emit_other .float _
                  · exact hl.emit_other .integer _
                · split
                  · split
                    · exact hl.emit_other .conversion _
                    · exact hl.mark _
                  · exact hl.mark _

/-- The content of a string is no word, and neither are its quotes. -/
theorem SpellsWords.content (h : l.SpellsWords) (q : Quote) (cs : List Char) :
    (l.content q cs).1.SpellsWords := by
  rw [Lexer.content]
  split
  · exact h.emit_other .unknown _
  · next c _ =>
      have hpiece : ∀ n, SpellsWords (if 0 < n then l.emit .stringContent (cs.take n) else l) := by
        intro n
        split
        · exact h.emit_other .stringContent _
        · exact h
      dsimp only
      split
      · exact (hpiece _).emit_other .stringEnd _
      · exact (hpiece _).emit_other .holeStart _

/-- The pieces of a format specification are no words. -/
theorem SpellsWords.formatPiece (h : l.SpellsWords) (cs : List Char) :
    (l.formatPiece cs).1.SpellsWords := by
  unfold Lexer.formatPiece
  split
  · exact h
  · exact h.emit_other .holeStart _
  · exact h.emit_other .holeEnd _
  · exact h
  · exact h.emit_other .formatText _

/-- Whatever the lexer is in, a step adds no word that is not a name. -/
theorem SpellsWords.step (h : l.SpellsWords) (cs : List Char) : (l.step cs).1.SpellsWords := by
  rw [Lexer.step]
  split
  · exact h.content _ cs
  · exact h.formatPiece cs
  · exact h.code cs

/-- So the words of a whole run are names. -/
theorem SpellsWords.run (h : l.SpellsWords) (fuel : Nat) (cs : List Char) :
    (run fuel l cs).SpellsWords := by
  induction fuel generalizing l cs with
  | zero => exact h
  | succ fuel ih =>
      cases cs with
      | nil => exact h
      | cons c cs => exact ih (h.step (c :: cs)) _

/-- The tokens at the end of a text are no words. -/
theorem SpellsWords.finish (h : l.SpellsWords) : l.finish.SpellsWords := by
  rw [Lexer.finish]
  split
  · exact h.endLine.closeBlocks 0 l.indents
  · exact h.emit_other .unknown []

end Lexer

/-- The words among the tokens of a text are identifiers. -/
theorem isIdentifier_of_mem_lex {text : List Char} {t : Token} (ht : t ∈ (lex text).1)
    (hkind : t.kind = .word) : IsIdentifier t.text.toList := by
  have hstart : Lexer.SpellsWords {} := fun t ht => absurd ht List.not_mem_nil
  exact (hstart.run (text.length + 1) text).finish t (List.mem_reverse.1 ht) hkind

/-! ## Trees with names -/

/-- Whether a tree of that kind defines a name with a body. -/
def Kind.isDefinition (k : Kind) : Bool :=
  k = .classDefinition || k = .functionDefinition

/-- An identifier covers a name, where `name` says so of two byte offsets; a class or function has
an identifier in the role of its name, and none of them is itself in the role of a body. -/
structure SyntaxTree.Named (name : Nat → Nat → Prop) (t : SyntaxTree) : Prop where
  identifier : t.kind = .identifier → name t.start t.stop
  definition : t.kind.isDefinition = true →
    ∃ c, t.child? .name = some c ∧ c.kind = .identifier
  body : t.role = some .body → t.kind.isDefinition = false

variable {name : Nat → Nat → Prop} {edge : Nat → Prop} {r : Reader} {x : Reading} {t : SyntaxTree}

/-- A tree that is neither an identifier nor a definition has no name to spell. -/
theorem named_of_ne (hidentifier : t.kind ≠ .identifier)
    (hdefinition : t.kind.isDefinition = false) : Named name t :=
  ⟨fun h => absurd h hidentifier, fun h => absurd (hdefinition.symm.trans h) (by decide),
    fun _ => hdefinition⟩

/-- A tree keeps its name in another role, as long as no definition becomes a body. -/
theorem named_withRole {part : Role} (h : AllParts (Named name) t)
    (hbody : part = .body → t.kind.isDefinition = false) :
    AllParts (Named name) (t.withRole part) := by
  refine h.withRole part fun hself => ⟨?_, ?_, ?_⟩
  · rw [kind_withRole, start_withRole, stop_withRole]
    exact hself.identifier
  · rw [kind_withRole, child?, children_withRole]
    exact hself.definition
  · rw [kind_withRole, role_withRole, Option.some_inj]
    exact hbody

/-- The tag makes neither an identifier nor a definition nor a body. -/
def Tag.IsPlain (t : Tag) : Prop :=
  t.kind ≠ .identifier ∧ t.kind.isDefinition = false ∧ t.leftRole ≠ some .body

namespace Grammar

/-- Readings of the grammar begin with an identifier in the role of a name. -/
def BeginsNamed : Grammar Rule → Prop
  | seq a b => BeginsNamed a ∨ (Bare a ∧ BeginsNamed b)
  | role part (leaf kind _) => part = .name ∧ kind = .identifier
  | _ => False

/-- What a grammar that begins with a name reads begins with an identifier in this role. -/
theorem exists_name_of_beginsNamed {g : Grammar Rule} (h : Reads Rule.definition g r x)
    (hg : g.BeginsNamed) :
    ∃ c rest, x.trees = c :: rest ∧ c.role = some .name ∧ c.kind = .identifier := by
  induction h with
  | seq ha hb iha ihb =>
      rcases hg with hg | ⟨hbare, hg⟩
      · obtain ⟨c, rest, htrees, hc⟩ := iha hg
        exact ⟨c, _, congrArg (· ++ _) htrees, hc⟩
      · obtain ⟨c, rest, htrees, hc⟩ := ihb hg
        refine ⟨c, rest, ?_, hc⟩
        show _ ++ _ = c :: rest
        rw [ha.trees_of_bare hbare, htrees]
        rfl
  | @role part inner r x h ih =>
      cases inner with
      | leaf kind test =>
          obtain ⟨rfl, rfl⟩ := hg
          cases h with
          | leaf hnext => exact ⟨_, [], rfl, rfl, rfl⟩
      | _ => exact absurd hg id
  | _ => exact absurd hg id

/-- The trees that the grammar leaves are blocks, or of a kind that its tag decides. -/
def LeavesBlock : Grammar Rule → Prop
  | rule name => name = .suite
  | node kind _ => kind.isDefinition = false
  | _ => False

/-- The grammar makes identifiers of words only, classes and functions only of what begins with
their name, and bodies of blocks. -/
def Spelled : Grammar Rule → Prop
  | token _ | rule _ | empty | ahead _ | absent _ => True
  | leaf kind test =>
    kind.isDefinition = false ∧ (kind = .identifier → ∀ t, test t = true → t.kind = .word)
  | seq a b | choice a b | extend a b _ => Spelled a ∧ Spelled b
  | many a => Spelled a
  | role part a => Spelled a ∧ (part = .body → LeavesBlock a)
  | node kind a =>
    Spelled a ∧ kind ≠ .identifier ∧ (kind.isDefinition = true → BeginsNamed a)
  | tag t => t.IsPlain
  | byKind _ a b c => Spelled a ∧ Spelled b ∧ Spelled c

section Reads

variable {g : Grammar Rule} (hrules : ∀ rule, (Rule.definition rule).Spelled)

include hrules

/-- The tag of a reading is one of those in the grammar. -/
theorem Reads.isPlain_of_tag (h : Reads Rule.definition g r x) (hg : g.Spelled) :
    ∀ t ∈ x.tag, t.IsPlain := by
  have hnone : ∀ t ∈ (none : Option Tag), t.IsPlain := fun _ ht => absurd ht (by simp)
  -- the later of two tags counts, and either is one of the grammar
  have hor : ∀ {a b : Option Tag}, (∀ t ∈ a, t.IsPlain) → (∀ t ∈ b, t.IsPlain) →
      ∀ t ∈ b.or a, t.IsPlain := by
    intro a b ha hb t ht
    cases b with
    | none => exact ha t ht
    | some chosen => exact hb t ht
  induction h with
  | rule h ih => exact ih (hrules _)
  | seq ha hb iha ihb => exact hor (iha hg.1) (ihb hg.2)
  | first ha ih => exact ih hg.1
  | second hb ih => exact ih hg.2
  | more hitem hmore ihitem ihmore => exact hor (ihitem hg) (ihmore hg)
  | base h ih => exact ih hg.1
  | tag t r =>
      intro u hu
      obtain rfl := Option.mem_some.1 hu
      exact hg
  | role h ih => exact ih hg.1
  | byKind h hy ih ihy =>
      refine hor (ih hg.1) (ihy ?_)
      split
      · exact hg.2.1
      · exact hg.2.2
  | _ => exact hnone

/-- Where the grammar of a block has been read, no tree that it leaves is a definition. -/
theorem Reads.isDefinition_of_leavesBlock (h : Reads Rule.definition g r x) (hg : g.Spelled)
    (hblock : g.LeavesBlock) : ∀ t ∈ x.trees, t.kind.isDefinition = false := by
  induction h with
  | rule h ih =>
      obtain rfl := hblock
      exact ih (hrules _) rfl
  | @node kind inner r x h ih =>
      intro t ht
      obtain rfl := List.mem_singleton.1 ht
      show (x.tag.elim kind Tag.kind).isDefinition = false
      cases htag : x.tag with
      | none => exact hblock
      | some chosen => exact (h.isPlain_of_tag hrules hg.1 chosen htag).2.1
  | _ => exact absurd hblock id

/-- The trees of a reading have their names. -/
theorem Reads.named (h : Reads Rule.definition g r x) (hg : g.Spelled) (hr : r.Ready edge)
    (hwords : ∀ t ∈ r.rest, t.kind = .word → name t.start t.stop) :
    ∀ t ∈ x.trees, AllParts (Named name) t := by
  have hnone : ∀ t ∈ ([] : List SyntaxTree), AllParts (Named name) t :=
    fun _ ht => absurd ht List.not_mem_nil
  induction h with
  | @leaf kind test t r r' hnext =>
      obtain ⟨htest, hrest, _⟩ := next_eq_some hnext
      intro u hu
      obtain rfl := List.mem_singleton.1 hu
      refine AllParts.of_children ⟨fun hkind => ?_, fun hkind => ?_, nofun⟩ hnone
      · refine hwords t ?_ (hg.2 hkind t htest)
        rw [hrest]
        exact List.mem_cons_self
      · exact absurd (hg.1.symm.trans hkind) (by decide)
  | rule h ih => exact ih (hrules _) hr hwords
  | seq ha hb iha ihb =>
      -- the tokens left by the first part are among those it was given, so their words are names
      -- too
      have hfirst := ha.advances hr
      exact List.forall_mem_append.2 ⟨iha hg.1 hr hwords,
        ihb hg.2 hfirst.ready fun t ht => hwords t (hfirst.suffix.subset ht)⟩
  | first ha ih => exact ih hg.1 hr hwords
  | second hb ih => exact ih hg.2 hr hwords
  | more hitem hmore ihitem ihmore =>
      have hfirst := hitem.advances hr
      exact List.forall_mem_append.2 ⟨ihitem hg hr hwords,
        ihmore hg hfirst.ready fun t ht => hwords t (hfirst.suffix.subset ht)⟩
  | @node kind inner r x h ih =>
      have hx := ih hg.1 hr hwords
      intro t ht
      obtain rfl := List.mem_singleton.1 ht
      refine AllParts.of_children ?_ hx
      cases htag : x.tag with
      | some chosen =>
          obtain ⟨hidentifier, hdefinition, -⟩ := h.isPlain_of_tag hrules hg.1 chosen htag
          exact named_of_ne hidentifier hdefinition
      | none =>
          refine ⟨fun hkind => absurd hkind hg.2.1, fun hkind => ?_, nofun⟩
          obtain ⟨c, rest, htrees, hrole, hc⟩ := exists_name_of_beginsNamed h (hg.2.2 hkind)
          refine ⟨c, ?_, hc⟩
          show List.find? _ x.trees = some c
          simp [htrees, hrole]
  | base h ih => exact ih hg.1 hr hwords
  | untagged h ih => exact ih hg.1 hr hwords
  | @extended base addition again r mid after t trees chosen h hadd ih ihadd =>
      -- the new tree has no name to spell, and the one taken in keeps its own, for it is not made a
      -- body
      have hmid := h.advances hr
      have hleft := ih hg hr hwords t List.mem_cons_self
      have hright := ihadd hg.2 hmid.ready fun t ht => hwords t (hmid.suffix.subset ht)
      obtain ⟨hidentifier, hdefinition, hbody⟩ := hadd.isPlain_of_tag hrules hg.2 chosen rfl
      intro u hu
      obtain rfl := List.mem_singleton.1 hu
      refine AllParts.of_children (named_of_ne hidentifier hdefinition) ?_
      intro c hc
      rcases List.mem_cons.1 hc with rfl | hc
      · rw [takenIn]
        split
        · next part hpart =>
            refine named_withRole hleft ?_
            rintro rfl
            exact absurd hpart hbody
        · exact hleft
      · exact hright c hc
  | @role part inner r x h ih =>
      intro u hu
      obtain ⟨t, ht, rfl⟩ := List.mem_map.1 hu
      exact named_withRole (ih hg.1 hr hwords t ht) fun hpart =>
        h.isDefinition_of_leavesBlock hrules hg.1 (hg.2 hpart) t ht
  | @byKind test inner yes no r after t chosen y h hy ih ihy =>
      have hfirst := h.advances hr
      have hyes : (if test t.kind then yes else no).Spelled := by
        split
        · exact hg.2.1
        · exact hg.2.2
      refine List.forall_mem_cons.2 ⟨ih hg.1 hr hwords t List.mem_cons_self, ?_⟩
      exact ihy hyes hfirst.ready fun t ht => hwords t (hfirst.suffix.subset ht)
  | _ => exact hnone

end Reads

end Grammar

/-! ## The rules -/

namespace Rule

@[simp] theorem bare_word (w : String) : (word w : G).Bare := trivial

@[simp] theorem beginsNamed_anyName : (role .name anyName : G).BeginsNamed := ⟨rfl, rfl⟩

@[simp] theorem spelled_mark (m : String) : (mark m : G).Spelled := trivial

@[simp] theorem spelled_word (w : String) : (word w : G).Spelled := trivial

@[simp] theorem spelled_kinded (k : TokenKind) : (kinded k : G).Spelled := trivial

@[simp] theorem spelled_oneMark (marks : List String) : (oneMark marks).Spelled := trivial

@[simp] theorem spelled_wordBut (reserved : List String) : (wordBut reserved).Spelled := by
  refine ⟨rfl, fun _ t ht => ?_⟩
  rw [Bool.and_eq_true, decide_eq_true_iff] at ht
  exact ht.1

@[simp] theorem spelled_anyName : anyName.Spelled :=
  ⟨rfl, fun _ _ ht => of_decide_eq_true ht⟩

/-- All rules make identifiers of words, classes and functions of what begins with a name, and
bodies of blocks. -/
theorem spelled (name : Rule) : (definition name).Spelled := by
  cases name with
  | binary level =>
      rw [definition]
      split
      · by_cases hlevel : level = 0 <;>
          simp [Spelled, Tag.IsPlain, Kind.isDefinition, all, takesIn, hlevel]
      · trivial
  | _ =>
      simp [definition, Spelled, LeavesBlock, Tag.IsPlain, BeginsNamed, Bare, Kind.isDefinition,
        all, oneOf,
        Grammar.optional, many1, commaSeparated, commaList, ofKind, identifier, endOfStatement,
        importWords, wordStatement, body, comparisonOperator, listTail, typed, defaultValue,
        callTail, targetTail, bracketed, indented, stray, becomes, takesIn, starred,
        definition.sliceRest, definition.spread, definition.mapping, definition.entry,
        definition.braceTail]

end Rule

/-! ## Joined line ends -/

/-- Putting a joint among trees keeps them, but for the one that it lies in, and adds nothing else.
-/
theorem mem_insertJointAmong_cases {s : Span} {ts : List SyntaxTree} {c : SyntaxTree}
    (hc : c ∈ insertJointAmong s ts) :
    c = joint s ∨ c ∈ ts ∨ ∃ t ∈ ts, c = t.insertJoint s := by
  induction ts with
  | nil => exact Or.inl (List.mem_singleton.1 hc)
  | cons t ts ih =>
      rw [insertJointAmong] at hc
      split at hc
      · exact (List.mem_cons.1 hc).imp_right Or.inl
      · split at hc
        · rcases List.mem_cons.1 hc with rfl | hc
          · exact Or.inr (Or.inr ⟨t, List.mem_cons_self, rfl⟩)
          · exact Or.inr (Or.inl (List.mem_cons_of_mem t hc))
        · rcases List.mem_cons.1 hc with rfl | hc
          · exact Or.inr (Or.inl List.mem_cons_self)
          · rcases ih hc with hjoint | hmem | ⟨u, hu, hin⟩
            · exact Or.inl hjoint
            · exact Or.inr (Or.inl (List.mem_cons_of_mem t hmem))
            · exact Or.inr (Or.inr ⟨u, List.mem_cons_of_mem t hu, hin⟩)

/-- The first tree in a role is still the first, perhaps with the joined line end in it. -/
theorem find?_role_insertJointAmong (s : Span) (ts : List SyntaxTree) {part : Role}
    {c : SyntaxTree} (h : ts.find? (fun t => t.role = some part) = some c) :
    ∃ d, (insertJointAmong s ts).find? (fun t => t.role = some part) = some d ∧
      d.kind = c.kind := by
  induction ts with
  | nil => exact nomatch h
  | cons t ts ih =>
      rw [insertJointAmong]
      split
      · exact ⟨c, by rw [List.find?_cons_of_neg (by simp [joint, SyntaxTree.role])]; exact h, rfl⟩
      · by_cases hrole : t.role = some part
        · obtain rfl : t = c := by simpa [hrole] using h
          split
          · exact ⟨t.insertJoint s, by simp [role_insertJoint, hrole], kind_insertJoint s t⟩
          · exact ⟨t, by simp [hrole], rfl⟩
        · rw [List.find?_cons_of_neg (by simpa using hrole)] at h
          split
          · refine ⟨c, ?_, rfl⟩
            rw [List.find?_cons_of_neg (by simpa [role_insertJoint] using hrole)]
            exact h
          · rw [List.find?_cons_of_neg (by simpa using hrole)]
            exact ih h

theorem named_joint (s : Span) : AllParts (Named name) (joint s) :=
  AllParts.of_children (named_of_ne (by simp [joint, SyntaxTree.kind]) rfl)
    fun c hc => absurd hc List.not_mem_nil

/-- A joint inside of a tree changes no name in it. -/
theorem named_insertJoint (s : Span) (t : SyntaxTree) (h : AllParts (Named name) t) :
    AllParts (Named name) (t.insertJoint s) := by
  induction t using childInduction with
  | step t ih =>
      obtain ⟨kind, role, start, stop, children⟩ := t
      obtain ⟨hidentifier, hdefinition, hbody⟩ := h.self
      rw [insertJoint]
      refine AllParts.of_children ⟨hidentifier, fun hkind => ?_, hbody⟩ ?_
      · obtain ⟨c, hc, hckind⟩ := hdefinition hkind
        obtain ⟨d, hd, hdkind⟩ := find?_role_insertJointAmong s children hc
        exact ⟨d, hd, hdkind.trans hckind⟩
      · intro c hc
        rcases mem_insertJointAmong_cases hc with rfl | hmem | ⟨u, hu, rfl⟩
        · exact named_joint s
        · exact h.child hmem
        · exact ih u hu (h.child hu)

/-! ## The tree of a text -/

/-- An identifier stands between two byte offsets of a text. -/
def HoldsName (text : List Char) (a b : Nat) : Prop :=
  ∃ name, Holds text a b name ∧ IsIdentifier name

/-- The identifiers in the tree of a text cover identifiers, its classes and functions have names,
and none of them is a body. -/
theorem named_parse (text : List Char) : AllParts (Named (HoldsName text)) (parse text) := by
  have hlaid := laid_lex text
  have hwords : ∀ t ∈ (lex text).1, t.kind = .word → HoldsName text t.start t.stop :=
    fun t ht hkind => ⟨_, (hlaid.tokens_placed t ht).holds, isIdentifier_of_mem_lex ht hkind⟩
  have hjoints : ∀ (spans : List Span) (t : SyntaxTree), AllParts (Named (HoldsName text)) t →
      AllParts (Named (HoldsName text)) (spans.foldl (fun t s => t.insertJoint s) t) := by
    intro spans
    induction spans with
    | nil => exact fun t h => h
    | cons s spans ih => exact fun t h => ih _ (named_insertJoint s t h)
  have hroot : ∀ trees, (∀ t ∈ trees, AllParts (Named (HoldsName text)) t) →
      AllParts (Named (HoldsName text)) ((lex text).2.foldl (fun t s => t.insertJoint s)
        (.node .module none 0 (byteLength text) trees)) := by
    intro trees htrees
    refine hjoints _ _ (AllParts.of_children (named_of_ne ?_ rfl) htrees)
    simp [SyntaxTree.kind]
  rw [parse]
  dsimp only
  cases hrun : run Rule.definition (400 * ((lex text).1.length + 2)) moduleGrammar
      ⟨0, (lex text).1⟩ with
  | none => exact hroot [] (by simp)
  | some x =>
      have hgrammar : moduleGrammar.Spelled := by
        simp [moduleGrammar, Spelled, Kind.isDefinition]
      exact hroot x.trees
        ((reads_of_run _ _ hrun).named Rule.spelled hgrammar hlaid.ready hwords)

/-- The text that a class or function has for its name is an identifier. -/
theorem exists_name_of_definition {text : List Char} (h : AllParts (Named (HoldsName text)) t)
    (hkind : t.kind.isDefinition = true) :
    ∃ c, t.child? .name = some c ∧ IsIdentifier (c.text text).toList := by
  obtain ⟨c, hc, hckind⟩ := h.self.definition hkind
  obtain ⟨name, hholds, hname⟩ := (h.child (mem_of_child? hc).1).self.identifier hckind
  refine ⟨c, hc, ?_⟩
  rw [SyntaxTree.text, chars, hholds.slice_eq, String.toList_ofList]
  exact hname

end CallFill.Source
