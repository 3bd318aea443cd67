import CallFill.Proofs.Source.RuleForms

/-!
# Argument lists

The tree of an argument list stands between two parentheses: the trees in it lie between them, and
where there are none, no token stands between them (`Parenthesized`). The parentheses are the first
and the last token that a reading of the rule takes; that the last is one of them can be seen from
the form of what follows the first (`EndsWith`). Behind the last argument there may be one token
more, which is a comma (`Behind`).
-/

namespace CallFill.Source

open Reader SyntaxTree Grammar

namespace SyntaxTree

/-- A tree stands between two parentheses, with its children between them; `gap` says what two
offsets may have between them that leaves no tree, and `behind` what may stand between the last
child and the closing parenthesis. -/
structure Parenthesized (edge : Nat → Prop) (gap behind : Nat → Nat → Prop) (t : SyntaxTree) :
    Prop where
  long : t.start + 2 ≤ t.stop
  opening_edge : edge (t.start + 1)
  closing_edge : edge (t.stop - 1)
  ordered : InOrder (t.start + 1) (t.stop - 1) (t.start + 1) t.children
  gap_of_empty : t.children = [] → gap (t.start + 1) (t.stop - 1)
  trailing : t.kind ≠ .generatorExpression →
    ∀ n, t.start + 1 ≤ n → (∀ c ∈ t.children, c.stop ≤ n) → behind n (t.stop - 1)

end SyntaxTree

/-- The tokens left have the length of their texts, and no token is missing between them. -/
structure Reader.Spaced (gap : Nat → Nat → Prop) (r : Reader) : Prop where
  length : ∀ t ∈ r.rest, t.stop = t.start + Text.byteLength t.text.toList
  gaps : Gaps gap r.rest

/-- No token is missing behind the last one read that takes up room. -/
def Reader.Linked (gap : Nat → Nat → Prop) (r : Reader) : Prop :=
  ∀ skipped b, skipped ++ [b] <+: r.rest → (∀ t ∈ skipped, t.isSolid = false) →
    b.kind.isCode = true → gap r.last b.start

variable {edge : Nat → Prop} {gap : Nat → Nat → Prop} {r r' after : Reader} {x y : Reading}
  {test : Token → Bool} {t : Token} {n : Nat}

namespace Reader

/-- The gaps between the tokens left are those between later ones. -/
theorem Spaced.suffix (h : r.Spaced gap) (hsuffix : r'.rest <:+ r.rest) : r'.Spaced gap :=
  ⟨fun t ht => h.length t (hsuffix.subset ht),
    fun a skipped b hinside => h.gaps a skipped b (hinside.trans hsuffix.isInfix)⟩

theorem Spaced.next (h : r.Spaced gap) (hnext : r.next test = some (t, r')) : r'.Spaced gap := by
  obtain ⟨_, hrest, _⟩ := next_eq_some hnext
  refine h.suffix ?_
  rw [hrest]
  exact List.suffix_cons t r'.rest

/-- Behind a token that takes up room no token is missing. -/
theorem Spaced.linked (h : r.Spaced gap) (hnext : r.next test = some (t, r'))
    (hsolid : t.isSolid = true) : r'.Linked gap := by
  obtain ⟨_, hrest, hlast⟩ := next_eq_some hnext
  rw [hsolid, if_pos rfl] at hlast
  intro skipped b hahead hskipped hcode
  rw [hlast]
  refine h.gaps t skipped b ?_ hskipped hcode
  rw [hrest]
  exact ((List.prefix_cons_inj t).2 hahead).isInfix

/-- A token that is taken links the reader to the next one. -/
theorem Linked.next (h : r.Linked gap) (hs : r.Spaced gap) (hnext : r.next test = some (t, r')) :
    r'.Linked gap := by
  cases hsolid : t.isSolid with
  | true => exact hs.linked hnext hsolid
  | false =>
      obtain ⟨_, hrest, hlast⟩ := next_eq_some hnext
      rw [hsolid, if_neg (by decide)] at hlast
      intro skipped b hahead hskipped hcode
      rw [hlast]
      refine h (t :: skipped) b ?_ ?_ hcode
      · rw [hrest]
        exact (List.prefix_cons_inj t).2 hahead
      · intro u hu
        rcases List.mem_cons.1 hu with rfl | hu
        · exact hsolid
        · exact hskipped u hu

/-- The next token of code, with nothing missing before it. -/
theorem Linked.gap_next (h : r.Linked gap) (hnext : r.next test = some (t, r'))
    (hcode : t.kind.isCode = true) : gap r.last t.start := by
  obtain ⟨_, hrest, _⟩ := next_eq_some hnext
  refine h [] t ?_ (fun u hu => absurd hu List.not_mem_nil) hcode
  rw [hrest]
  exact ⟨r'.rest, rfl⟩

/-- The tokens left lie ready, and none is missing. -/
structure Tied (edge : Nat → Prop) (gap : Nat → Nat → Prop) (r : Reader) : Prop where
  ready : r.Ready edge
  spaced : r.Spaced gap
  linked : r.Linked gap

theorem Tied.next (h : r.Tied edge gap) (hnext : r.next test = some (t, r')) : r'.Tied edge gap :=
  ⟨(h.ready.next hnext).ready, h.spaced.next hnext, h.linked.next h.spaced hnext⟩

end Reader

/-! ## Readings that end with a mark -/

namespace Grammar

variable {ρ : Type} {rules : ρ → Grammar ρ} {known : ρ → Prop} {g : Grammar ρ} {m : String}

/-- The last token that a reading takes is a mark; its trees lie before the mark. -/
def ClosedBy (edge : Nat → Prop) (m : String) (r : Reader) (x : Reading) : Prop :=
  ∃ mid b, Advances edge r mid ∧ mid.rest = b :: x.after.rest ∧ b.isMark m = true ∧
    x.after.last = b.stop ∧ ∀ lo, Bounds lo r → InOrder lo mid.last r.last x.trees

/-- Readings of the grammar end with a mark. -/
def EndsWith (m : String) : Grammar ρ → Prop
  | token test => ∀ t, test t = true → t.isMark m = true
  | seq a b => EndsWith m b ∨ EndsWith m a ∧ ∃ t, b = tag t
  | choice a b => EndsWith m a ∧ EndsWith m b
  | _ => False

/-- What is read before a closed reading lies before the mark as well. -/
theorem ClosedBy.append {tag : Option Tag} (hy : ClosedBy edge m x.after y)
    (hr : r.Ready edge) (hx : InPlace edge r x) (hadvances : Advances edge r x.after) :
    ClosedBy edge m r ⟨x.trees ++ y.trees, tag, y.after⟩ := by
  obtain ⟨mid, b, hmid, hrest, hmark, hlast, hordered⟩ := hy
  refine ⟨mid, b, hadvances.trans hr hmid, hrest, hmark, hlast, fun lo hlo => ?_⟩
  exact (hx.ordered lo hlo).append (hordered lo (hlo.of_advances hadvances))

/-- A reading whose grammar ends with a mark ends with the mark. -/
theorem Reads.closedBy (hknown : Reliable rules known)
    (horderly : ∀ name, (rules name).Orderly known) (h : Reads rules g r x)
    (hg : g.Orderly known) (hend : g.EndsWith m) (hr : r.Ready edge) : ClosedBy edge m r x := by
  induction h with
  | token hnext =>
      obtain ⟨htest, hrest, hlast⟩ := next_eq_some hnext
      have hmark := hend _ htest
      rw [isSolid_of_isCode (Rule.isCode_of_isMark m _ hmark), if_pos rfl] at hlast
      exact ⟨_, _, Advances.refl hr, hrest, hmark, hlast, fun _ _ => Nat.le_refl _⟩
  | @seq a b r x y ha hb iha ihb =>
      have hfirst := ha.advances hr
      rcases hend with hend | ⟨hend, t, rfl⟩
      · exact (ihb hg.2 hend hfirst.ready).append hr (ha.inPlace hknown horderly hg.1 hr) hfirst
      -- the tag behind the mark reads nothing
      · cases hb
        obtain ⟨mid, c, hmid, hrest, hmark, hlast, hordered⟩ := iha hg.1 hend hr
        refine ⟨mid, c, hmid, hrest, hmark, hlast, fun lo hlo => ?_⟩
        show InOrder lo mid.last _ (_ ++ [])
        rw [List.append_nil]
        exact hordered lo hlo
  | first ha ih => exact ih hg.1 hend.1 hr
  | second hb ih => exact ih hg.2 hend.2 hr
  | _ => exact absurd hend id

end Grammar

/-! ## What stands behind the last argument -/

/-- A mark takes up its own text. -/
theorem stop_of_isMark (hs : r.Spaced gap) {t : Token} {m : String} (ht : t ∈ r.rest)
    (hm : t.isMark m = true) : t.stop = t.start + Text.byteLength m.toList := by
  rw [Token.isMark, Bool.and_eq_true, decide_eq_true_iff, decide_eq_true_iff] at hm
  rw [hs.length t ht, hm.2]

/-- Behind an offset, or from before it, one byte at most stands between gaps up to another one. -/
def Behind (gap : Nat → Nat → Prop) (n hi : Nat) : Prop :=
  ∃ a, a ≤ n ∧ (gap a hi ∨ ∃ m, gap a m ∧ gap (m + 1) hi)

namespace Reader.Tied

/-- A reading keeps the reader tied to the tokens before it. -/
theorem reads {g : Grammar Rule} (h : r.Tied edge gap) (hx : Reads Rule.definition g r x) :
    x.after.Tied edge gap :=
  hx.kept (fun _ _ _ _ hnext htied => htied.next hnext) h

/-- A mark comes next, and takes up as much room as its text. -/
theorem next_mark {m : String} (h : r.Tied edge gap)
    (hnext : r.next (Token.isMark m) = some (t, r')) :
    gap r.last t.start ∧ t.stop = t.start + Text.byteLength m.toList ∧ r'.last = t.stop := by
  obtain ⟨htest, hrest, hlast⟩ := next_eq_some hnext
  have hcode := Rule.isCode_of_isMark m t htest
  rw [isSolid_of_isCode hcode, if_pos rfl] at hlast
  have hmem : t ∈ r.rest := by
    rw [hrest]
    exact List.mem_cons_self
  exact ⟨h.linked.gap_next hnext hcode, stop_of_isMark h.spaced hmem htest, hlast⟩

/-- The closing parenthesis comes next. -/
theorem behind_next (h : r.Tied edge gap)
    (hnext : r.next (Token.isMark ")") = some (t, after)) (hn : r.last ≤ n) :
    Behind gap n (after.last - 1) := by
  obtain ⟨hgap, hstop, hlast⟩ := h.next_mark hnext
  have hstop : t.stop = t.start + 1 := hstop
  have hclose : after.last - 1 = t.start := by omega
  rw [hclose]
  exact ⟨r.last, hn, Or.inl hgap⟩

/-- The closing parenthesis comes behind a comma. -/
theorem behind_comma {c : Token} {mid : Reader} (h : r.Tied edge gap)
    (hcomma : r.next (Token.isMark ",") = some (c, mid))
    (hnext : mid.next (Token.isMark ")") = some (t, after)) (hn : r.last ≤ n) :
    Behind gap n (after.last - 1) := by
  obtain ⟨hgap, hcstop, hmid⟩ := h.next_mark hcomma
  obtain ⟨hgap', hstop, hlast⟩ := (h.next hcomma).next_mark hnext
  have hcstop : c.stop = c.start + 1 := hcstop
  have hstop : t.stop = t.start + 1 := hstop
  have hclose : after.last - 1 = t.start := by omega
  rw [hclose]
  refine ⟨r.last, hn, Or.inr ⟨c.start, hgap, ?_⟩⟩
  rw [← hcstop, ← hmid]
  exact hgap'

/-- Of items behind commas the last ends where the reading does. -/
theorem ends_of_many (h : r.Tied edge gap)
    (hx : Reads Rule.definition (many (seq (mark ",") (rule .argument))) r x) :
    x.after = r ∨ ∃ t ∈ x.trees, t.stop = x.after.last := by
  generalize hg : many (seq (mark ",") (rule Rule.argument)) = g at hx
  induction hx with
  | stop item r => exact Or.inl rfl
  | @more item r x y hitem hmore ihitem ihmore =>
      cases hg
      rcases ihmore (h.reads hitem) rfl with hsame | ⟨t, ht, hstop⟩
      · cases hitem with
        | seq hcomma hargument =>
            obtain ⟨t, ht, _, hstop⟩ :=
              hargument.whole Rule.reliable trivial (h.reads hcomma).ready
            refine Or.inr ⟨t, ?_, ?_⟩
            · rw [ht]
              simp
            · show t.stop = y.after.last
              rw [hsame]
              exact hstop
      · exact Or.inr ⟨t, List.mem_append_right _ ht, hstop⟩
  | _ => cases hg

/-- The last of some arguments with commas between them ends where the reading does. -/
theorem ends_of_commaSeparated (h : r.Tied edge gap)
    (hx : Reads Rule.definition (commaSeparated (rule .argument)) r x) :
    ∃ t ∈ x.trees, t.stop = x.after.last := by
  cases hx with
  | @seq _ _ _ first others hfirst hothers =>
      rcases (h.reads hfirst).ends_of_many hothers with hsame | ⟨t, ht, hstop⟩
      · obtain ⟨t, ht, _, hstop⟩ := hfirst.whole Rule.reliable trivial h.ready
        refine ⟨t, ?_, ?_⟩
        · rw [ht]
          simp
        · show t.stop = others.after.last
          rw [hsame]
          exact hstop
      · exact ⟨t, List.mem_append_right _ ht, hstop⟩

/-- What follows an argument ends with at most one comma behind the last argument. -/
theorem behind_listTail (h : r.Tied edge gap)
    (hx : Reads Rule.definition (Rule.listTail ")" (rule .argument)) r x) (hlast : r.last ≤ n)
    (htrees : ∀ t ∈ x.trees, t.stop ≤ n) : Behind gap n (x.after.last - 1) := by
  rw [Rule.listTail] at hx
  simp only [oneOf, all] at hx
  -- the reading is taken apart mark by mark; a comma may stand before the closing mark, or after
  -- further arguments, and in each case behind the last of them
  cases hx with
  | first hclose =>
      cases hclose with
      | token hnext => exact h.behind_next hnext hlast
  | second hx =>
  cases hx with
  | seq hcomma hx =>
  cases hcomma with
  | token hcomma =>
  have hbehind := h.next hcomma
  cases hx with
  | first hclose =>
      cases hclose with
      | token hnext => exact h.behind_comma hcomma hnext hlast
  | second hx =>
  cases hx with
  | seq hlist hclose =>
  cases hclose with
  | token hnext =>
  cases hlist with
  | @seq _ _ _ items _ hitems hoptional =>
  obtain ⟨t, ht, hstop⟩ := hbehind.ends_of_commaSeparated hitems
  have hle : items.after.last ≤ n := by
    rw [← hstop]
    refine htrees t ?_
    simp [ht]
  have hend := hbehind.reads hitems
  cases hoptional with
  | first hcomma' =>
      cases hcomma' with
      | token hcomma' => exact hend.behind_comma hcomma' hnext hle
  | second hnone =>
      cases hnone
      exact hend.behind_next hnext hle

/-- Unless the arguments are a generator, at most one comma stands behind the last of them. -/
theorem behind_arguments {rest : Grammar Rule} (h : r.Tied edge gap)
    (hx : Reads Rule.definition (choice (mark ")") (seq (rule .argument)
      (choice (Rule.listTail ")" (rule .argument))
        (all [rest, mark ")", becomes .generatorExpression])))) r x)
    (hkind : x.tag.elim Kind.argumentList Tag.kind ≠ .generatorExpression) (hlast : r.last ≤ n)
    (htrees : ∀ t ∈ x.trees, t.stop ≤ n) : Behind gap n (x.after.last - 1) := by
  cases hx with
  | first hclose =>
      cases hclose with
      | token hnext => exact h.behind_next hnext hlast
  | second hx =>
  cases hx with
  | @seq _ _ _ first others hfirst hothers =>
  obtain ⟨t, ht, _, hstop⟩ := hfirst.whole Rule.reliable trivial h.ready
  cases hothers with
  | first htail =>
      have hle : first.after.last ≤ n := by
        rw [← hstop]
        refine htrees t ?_
        simp [ht]
      have hothers : ∀ u ∈ others.trees, u.stop ≤ n := fun u hu =>
        htrees u (List.mem_append_right _ hu)
      have hbehind := (h.reads hfirst).behind_listTail htail hle hothers
      exact hbehind
  | second hgenerator =>
      simp only [all] at hgenerator
      cases hgenerator with
      | seq _ hgenerator =>
      cases hgenerator with
      | seq _ htag =>
      cases htag with
      | tag _ _ => exact absurd rfl hkind

end Reader.Tied

/-! ## Argument lists -/

/-- What follows the opening parenthesis is closed, and without a tree it is the closing one. -/
theorem closedBy_of_reads_arguments {rest : Grammar Rule} (hr : r.Ready edge)
    (horderly : rest.Orderly Rule.IsOne) (hend : rest.EndsWith ")")
    (h : Reads Rule.definition (choice (mark ")") (seq (rule .argument) rest)) r x) :
    ClosedBy edge ")" r x ∧
      (x.trees = [] → ∃ b, r.rest = b :: x.after.rest ∧ b.isMark ")" = true) := by
  refine ⟨?_, ?_⟩
  · refine h.closedBy Rule.reliable Rule.orderly ⟨trivial, trivial, horderly⟩ ?_ hr
    exact ⟨fun t ht => ht, Or.inl hend⟩
  · intro hempty
    cases h with
    | first h =>
        cases h with
        | token hnext =>
            obtain ⟨htest, hrest, _⟩ := next_eq_some hnext
            exact ⟨_, hrest, htest⟩
    | second h =>
        cases h with
        | seq ha hb =>
            obtain ⟨t, ht, _⟩ := ha.whole Rule.reliable trivial hr
            have hnil := (List.append_eq_nil_iff.1 hempty).1
            rw [ht] at hnil
            exact absurd hnil (List.cons_ne_nil t [])

/-- A reading of arguments is one tree between parentheses. -/
theorem parenthesized_of_reads (hr : r.Ready edge) (hs : r.Spaced gap)
    (h : Reads Rule.definition (rule .arguments) r x) :
    ∃ t, x.trees = [t] ∧ Parenthesized edge gap (Behind gap) t := by
  cases h with
  | rule h =>
  rw [Rule.definition] at h
  cases h with
  | node h =>
  have hadvances := h.advances hr
  cases h with
  | @seq _ _ _ x' y ha hb =>
  cases ha with
  | @token _ a _ mid hnext =>
  obtain ⟨htest, hrest, hlast⟩ := next_eq_some hnext
  have hmid := hr.next hnext
  have hcode := Rule.isCode_of_isMark "(" a htest
  rw [isSolid_of_isCode hcode, if_pos rfl] at hlast
  have hmem : a ∈ r.rest := by
    rw [hrest]
    exact List.mem_cons_self
  have hlinked := hs.linked hnext (isSolid_of_isCode hcode)
  have hastop : a.stop = a.start + 1 := stop_of_isMark hs hmem htest
  obtain ⟨⟨before, b, hbefore, hbrest, hbmark, hblast, hordered⟩, hempty⟩ :=
    closedBy_of_reads_arguments hmid.ready
      (by simp [Orderly, Rule.listTail, oneOf, all, commaList, commaSeparated, Grammar.optional])
      (by simp [EndsWith, Rule.listTail, oneOf, all, mark, becomes]) hb
  have hbmem : b ∈ r.rest := hmid.suffix.subset (hbefore.suffix.subset (by
    rw [hbrest]
    exact List.mem_cons_self))
  have hbstop : b.stop = b.start + 1 := stop_of_isMark hs hbmem hbmark
  have hbehind : before.last ≤ b.start := hbefore.ready.last_le b (by
    rw [hbrest]
    exact List.mem_cons_self)
  have hle := hbefore.last_le
  have hfirst := hr.last_le a hmem
  -- the tree starts at the opening mark, which is the first token read
  have hspan : r.span y.after = ⟨a.start, y.after.last⟩ := by
    rcases span_cases hadvances with ⟨_, hsame⟩ | ⟨t, ht, _, hspan⟩
    · have hsame : y.after.last = r.last := hsame
      omega
    · rw [hrest, List.find?_cons_of_pos (isSolid_of_isCode hcode)] at ht
      rw [Option.some.inj ht]
      exact hspan
  refine ⟨_, rfl, ?_⟩
  show Parenthesized edge gap (Behind gap)
    (.node _ none (r.span y.after).start (r.span y.after).stop ([] ++ y.trees))
  rw [hspan, List.nil_append, hblast]
  have hclose : b.stop - 1 = b.start := by omega
  refine ⟨?_, ?_, ?_, ?_, ?_, ?_⟩
  · show a.start + 2 ≤ b.stop
    omega
  · show edge (a.start + 1)
    rw [← hastop]
    exact hr.stop_edge a hmem
  · show edge (b.stop - 1)
    rw [hclose]
    exact hr.start_edge b hbmem
  · show InOrder (a.start + 1) (b.stop - 1) (a.start + 1) y.trees
    rw [hclose, ← hastop, ← hlast]
    exact (hordered _ hmid.ready.bounds).le_hi hbehind
  · intro hnone
    -- without a tree the closing mark is the token right behind the opening one
    obtain ⟨c, hcrest, _⟩ := hempty hnone
    have hsame : before.rest = mid.rest := by
      refine hbefore.suffix.eq_of_length ?_
      rw [hbrest, hcrest]
      rfl
    rw [hsame] at hbrest
    show gap (a.start + 1) (b.stop - 1)
    rw [hclose, ← hastop, ← hlast]
    refine hlinked [] b ?_ (fun u hu => absurd hu List.not_mem_nil)
      (Rule.isCode_of_isMark ")" b hbmark)
    rw [hbrest]
    exact ⟨y.after.rest, rfl⟩
  · intro hkind n hn htrees
    rw [Option.or_none] at hkind
    have hn : a.start + 1 ≤ n := hn
    have htied : Tied edge gap mid := ⟨hmid.ready, hs.next hnext, hlinked⟩
    have hbehind := htied.behind_arguments hb hkind (by omega) htrees
    rw [hblast] at hbehind
    exact hbehind

end CallFill.Source
