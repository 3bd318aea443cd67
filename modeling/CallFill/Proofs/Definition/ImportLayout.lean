import CallFill.Proofs.Text.Words
import CallFill.ImportStatement

/-!
# Import statements as they are laid out

An import statement may be written over several lines, with blanks, parentheses, joined line ends
and comments between its words. All of these but comments are read as blanks, and a name of the list
is read if the words between its two commas are the name alone or a name, `as` and an identifier.

So all names are read in whatever way the statement is laid out, as long as no comment stands in the
list (`ofStatement_text`). A comment is not taken out, and what stands between the same two commas
is no name then: the comment after a comma hides the name on the next line (`not_readsAll`).
-/

namespace CallFill.Import

open Text

/-! ## Layout -/

/-- A character that only lays a statement out. -/
def isLayoutChar (c : Char) : Bool :=
  isBlank c || c == '(' || c == ')' || c == '\\'

/-- Layout that parts two words. -/
def IsGap (cs : List Char) : Prop :=
  cs ≠ [] ∧ ∀ c ∈ cs, isLayoutChar c = true

instance (cs : List Char) : Decidable (IsGap cs) :=
  -- along the text, not over all characters
  @instDecidableAnd _ _ _ (List.decidableBAll (isLayoutChar · = true) cs)

/-- Layout, and comments up to the ends of their lines. A comma parts names wherever it stands, so
the comments here have none. -/
def isLayoutFrom (inComment : Bool) : List Char → Bool
  | [] => !inComment
  | c :: cs =>
    if inComment then c != ',' && isLayoutFrom (c != '\n') cs
    else if c == '#' then isLayoutFrom true cs
    else isLayoutChar c && isLayoutFrom false cs

/-- What stands between two words of a statement. -/
structure Layout where
  chars : List Char
  isLayout : isLayoutFrom false chars = true

variable {cs ds gap : List Char} {c : Char} {line : Nat}

theorem comma_not_mem_of_isLayoutFrom {inComment : Bool} (h : isLayoutFrom inComment cs = true) :
    ',' ∉ cs := by
  induction cs generalizing inComment with
  | nil => exact List.not_mem_nil
  | cons c cs ih =>
      rw [isLayoutFrom] at h
      split at h
      · obtain ⟨hc, hrest⟩ := Bool.and_eq_true_iff.1 h
        exact List.not_mem_cons_of_ne_of_not_mem (bne_iff_ne.1 hc).symm (ih hrest)
      · split at h
        · next hc =>
            obtain rfl := beq_iff_eq.1 hc
            exact List.not_mem_cons_of_ne_of_not_mem (by decide) (ih h)
        · obtain ⟨hc, hrest⟩ := Bool.and_eq_true_iff.1 h
          refine List.not_mem_cons_of_ne_of_not_mem ?_ (ih hrest)
          rintro rfl
          exact Bool.false_ne_true hc

/-- Without comments all of it is layout. -/
theorem isLayoutChar_of_isLayoutFrom (h : isLayoutFrom false cs = true) (hplain : '#' ∉ cs) :
    ∀ c ∈ cs, isLayoutChar c = true := by
  induction cs with
  | nil => exact fun c hc => absurd hc List.not_mem_nil
  | cons c cs ih =>
      have hc : c ≠ '#' := (List.ne_of_not_mem_cons hplain).symm
      rw [isLayoutFrom, if_neg Bool.false_ne_true, if_neg (by simpa using hc)] at h
      obtain ⟨hself, h⟩ := Bool.and_eq_true_iff.1 h
      exact List.forall_mem_cons.2 ⟨hself, ih h (List.not_mem_of_not_mem_cons hplain)⟩

/-! ## The text without its layout -/

theorem withoutLayout_append (cs ds : List Char) :
    withoutLayout (cs ++ ds) = withoutLayout cs ++ withoutLayout ds :=
  List.map_append

/-- What is no layout stays as it is. -/
theorem withoutLayout_of_plain (h : ∀ c ∈ cs, isLayoutChar c = false) : withoutLayout cs = cs := by
  refine (List.map_congr_left fun c hc => ?_).trans (List.map_id cs)
  have hplain := h c hc
  simp only [isLayoutChar, Bool.or_eq_false_iff] at hplain
  simp [hplain]

/-- Layout becomes blank. -/
theorem isBlank_of_mem_withoutLayout (h : ∀ c ∈ cs, isLayoutChar c = true) :
    ∀ c ∈ withoutLayout cs, isBlank c = true := by
  intro c hc
  obtain ⟨d, hd, rfl⟩ := List.mem_map.1 hc
  have hlayout := h d hd
  split
  · rfl
  · next hmark =>
      simp only [isLayoutChar, Bool.or_eq_true, or_assoc] at hlayout hmark
      exact hlayout.resolve_right hmark

/-- A character that is no layout stands in the text after as before. -/
theorem mem_withoutLayout (hc : isLayoutChar c = false) : c ∈ withoutLayout cs ↔ c ∈ cs := by
  constructor
  · intro h
    obtain ⟨d, hd, hdc⟩ := List.mem_map.1 h
    split at hdc
    · subst hdc
      exact absurd hc (by decide)
    · exact hdc ▸ hd
  · intro h
    refine List.mem_map.2 ⟨c, h, if_neg fun hmark => ?_⟩
    simp only [isLayoutChar, Bool.or_eq_false_iff] at hc
    simp [hc] at hmark

theorem withoutLayout_intercalate (stretches : List (List Char)) :
    withoutLayout ([','].intercalate stretches) =
      [','].intercalate (stretches.map withoutLayout) := by
  induction stretches with
  | nil => rfl
  | cons cs stretches ih =>
      cases stretches with
      | nil => rw [List.intercalate_singleton, List.map_singleton, List.intercalate_singleton]
      | cons ds stretches =>
          rw [List.intercalate_cons_cons, withoutLayout_append, withoutLayout_append, ih,
            List.map_cons, List.map_cons, List.map_cons, List.intercalate_cons_cons]
          rfl

/-- Layout between two texts parts their words. -/
theorem words_withoutLayout_append (h : IsGap gap) (cs ds : List Char) :
    words (withoutLayout (cs ++ (gap ++ ds))) =
      words (withoutLayout cs) ++ words (withoutLayout ds) := by
  rw [withoutLayout_append, withoutLayout_append]
  exact words_append_blanks _ (mt List.map_eq_nil_iff.1 h.1) (isBlank_of_mem_withoutLayout h.2) _

/-! ## The names of a list -/

/-- A letter, a digit, an underscore or a dot. -/
theorem toNat_of_isPathChar (h : isPathChar c = true) :
    (48 ≤ c.toNat ∧ c.toNat ≤ 57) ∨ (65 ≤ c.toNat ∧ c.toNat ≤ 90) ∨
      (97 ≤ c.toNat ∧ c.toNat ≤ 122) ∨ c.toNat = 95 ∨ c.toNat = 46 := by
  rw [isPathChar, Bool.or_eq_true, Bool.or_eq_true, beq_iff_eq, beq_iff_eq] at h
  rcases h with (halphanum | rfl) | rfl
  · have hrange := isAlphanum_iff.1 halphanum
    omega
  · decide
  · decide

theorem isLayoutChar_of_isPathChar (h : isPathChar c = true) : isLayoutChar c = false := by
  have hrange := toNat_of_isPathChar h
  refine Bool.eq_false_iff.2 fun hlayout => ?_
  have hcode : isBlank c = true ∨ c.toNat = 40 ∨ c.toNat = 41 ∨ c.toNat = 92 := by
    simp only [isLayoutChar, Bool.or_eq_true, beq_iff_eq, or_assoc] at hlayout
    rcases hlayout with hblank | rfl | rfl | rfl
    · exact Or.inl hblank
    all_goals decide
  simp [isBlank] at hcode
  omega

/-- A text without layout is one word. -/
theorem words_withoutLayout_of_plain (hne : cs ≠ []) (h : ∀ c ∈ cs, isLayoutChar c = false) :
    words (withoutLayout cs) = [cs] := by
  rw [withoutLayout_of_plain h]
  refine words_of_plain hne fun c hc => ?_
  have hplain := h c hc
  simp only [isLayoutChar, Bool.or_eq_false_iff] at hplain
  exact hplain.1.1.1

theorem isPathChar_of_isIdentifier (h : isIdentifier cs = true) :
    ∀ c ∈ cs, isPathChar c = true := by
  cases cs with
  | nil => exact fun c hc => absurd hc List.not_mem_nil
  | cons d cs =>
      obtain ⟨hd, hcs⟩ := Bool.and_eq_true_iff.1 h
      refine List.forall_mem_cons.2 ⟨?_, fun c hc => ?_⟩
      · rcases Bool.or_eq_true_iff.1 hd with hd | hd <;> simp [isPathChar, Char.isAlphanum, hd]
      · have hc := List.all_eq_true.1 hcs c hc
        rw [isPathChar, hc, Bool.true_or]

theorem isPathChar_of_isPath (h : isPath cs = true) : ∀ c ∈ cs, isPathChar c = true :=
  List.all_eq_true.1 (Bool.and_eq_true_iff.1 h).2

theorem words_withoutLayout_of_isPath (h : isPath cs = true) : words (withoutLayout cs) = [cs] := by
  refine words_withoutLayout_of_plain ?_ fun c hc =>
    isLayoutChar_of_isPathChar (isPathChar_of_isPath h c hc)
  rintro rfl
  exact Bool.false_ne_true h

theorem words_withoutLayout_of_isIdentifier (h : isIdentifier cs = true) :
    words (withoutLayout cs) = [cs] := by
  refine words_withoutLayout_of_plain ?_ fun c hc =>
    isLayoutChar_of_isPathChar (isPathChar_of_isIdentifier h c hc)
  rintro rfl
  exact Bool.false_ne_true h

/-- Words that hold anything but the characters of paths are no name. -/
theorem item?_eq_none {ws : List (List Char)} {w : List Char} (hw : w ∈ ws) (hc : c ∈ w)
    (hplain : isPathChar c = false) : item? ws = none := by
  have hpath : ∀ v, c ∈ v → isPath v = false := fun v hv =>
    Bool.eq_false_iff.2 fun h => Bool.false_ne_true (hplain ▸ isPathChar_of_isPath h c hv)
  have hidentifier : ∀ v, c ∈ v → isIdentifier v = false := fun v hv =>
    Bool.eq_false_iff.2 fun h => Bool.false_ne_true (hplain ▸ isPathChar_of_isIdentifier h c hv)
  unfold item?
  split
  · next name =>
      obtain rfl := List.mem_singleton.1 hw
      rw [hpath w hc, if_neg Bool.false_ne_true]
  · next name asName =>
      refine if_neg ?_
      rcases List.mem_cons.1 hw with rfl | hw
      · simp [hpath w hc]
      · rcases List.mem_cons.1 hw with rfl | hw
        · exfalso
          rcases List.mem_cons.1 hc with rfl | hc
          · exact absurd hplain (by decide)
          · obtain rfl := List.mem_singleton.1 hc
            exact absurd hplain (by decide)
        · obtain rfl := List.mem_singleton.1 hw
          simp [hidentifier w hc]
  · rfl

/-- The names of a list do not depend on how many blanks stand between its words. -/
theorem items_collapseBlanks (cs : List Char) : items (collapseBlanks cs) = items cs := by
  have hcomma : ∀ c, isBlank c = true → (c == ',') = false := by
    intro c hc
    refine beq_eq_false_iff_ne.2 ?_
    rintro rfl
    exact absurd hc (by decide)
  have hfused : ∀ text : List Char,
      items text = ((pieces (· == ',') text).map words).filterMap item? := by
    intro text
    rw [items, List.filterMap_map]
    rfl
  rw [hfused, hfused]
  exact congrArg (List.filterMap item?) (sameWords_collapseBlanks hcomma cs)

/-- The part of an item from `as` on. -/
structure AsPart where
  before : Layout
  between : Layout
  name : List Char
  before_ne_nil : before.chars ≠ []
  between_ne_nil : between.chars ≠ []
  isIdentifier : isIdentifier name = true

/-- The part as it is written. -/
def AsPart.text (a : AsPart) : List Char :=
  a.before.chars ++ (['a', 's'] ++ (a.between.chars ++ a.name))

/-- A name in the list of an import statement, with all that stands between the commas around it. -/
structure Item where
  before : Layout
  name : List Char
  asPart : Option AsPart
  after : Layout
  isPath : isPath name = true

namespace Item

/-- The item as it is written. -/
def text (i : Item) : List Char :=
  i.before.chars ++ (i.name ++ (i.asPart.elim [] AsPart.text ++ i.after.chars))

/-- Whether a comment stands between the commas around the name. -/
def isCommented (i : Item) : Bool :=
  i.text.contains '#'

/-- The name and its alias. -/
def read (i : Item) : String × Option String :=
  (String.ofList i.name, i.asPart.map fun a => String.ofList a.name)

variable {i : Item}

/-- A comma parts items and is in none of them. -/
theorem comma_not_mem (i : Item) : ',' ∉ i.text := by
  have hcomma : isPathChar ',' = false := by decide
  have hname : ∀ cs : List Char, (∀ c ∈ cs, isPathChar c = true) → ',' ∉ cs :=
    fun cs h hin => Bool.false_ne_true (hcomma ▸ h ',' hin)
  have hlayout : ∀ l : Layout, ',' ∉ l.chars := fun l => comma_not_mem_of_isLayoutFrom l.isLayout
  have hasPart : ∀ a : AsPart, ',' ∉ a.text := by
    intro a
    simp only [AsPart.text, List.mem_append, not_or]
    exact ⟨hlayout _, by decide, hlayout _, hname _ (isPathChar_of_isIdentifier a.isIdentifier)⟩
  simp only [text, List.mem_append, not_or]
  refine ⟨hlayout _, hname _ (isPathChar_of_isPath i.isPath), ?_, hlayout _⟩
  cases i.asPart with
  | none => exact List.not_mem_nil
  | some a => exact hasPart a

/-- Without a comment the words of an item are those of the name and its alias. -/
theorem item?_words (h : i.isCommented = false) :
    item? (words (withoutLayout i.text)) = some i.read := by
  have hplain : '#' ∉ i.text := by simpa [isCommented] using h
  have hlayout : ∀ l : Layout, '#' ∉ l.chars → ∀ c ∈ l.chars, isLayoutChar c = true :=
    fun l => isLayoutChar_of_isLayoutFrom l.isLayout
  have hname := words_withoutLayout_of_isPath i.isPath
  obtain ⟨hbefore, -, hasPart, hafter⟩ := by simpa only [text, List.mem_append, not_or] using hplain
  -- the layout around the item has no words
  have houtside : words (withoutLayout i.text) =
      words (withoutLayout (i.name ++ i.asPart.elim [] AsPart.text)) := by
    rw [text, ← List.append_assoc i.name, withoutLayout_append,
      withoutLayout_append _ i.after.chars,
      words_blanks_append (isBlank_of_mem_withoutLayout (hlayout _ hbefore)),
      words_append_of_blanks _ (isBlank_of_mem_withoutLayout (hlayout _ hafter))]
  rw [houtside, read]
  cases hpart : i.asPart with
  | none =>
      rw [Option.elim_none, List.append_nil, hname]
      exact if_pos i.isPath
  | some a =>
      rw [hpart] at hasPart
      simp only [Option.elim_some, AsPart.text, List.mem_append, not_or] at hasPart
      obtain ⟨hfirst, -, hsecond, -⟩ := hasPart
      have hsplit : words (withoutLayout (i.name ++ a.text)) = [i.name, ['a', 's'], a.name] := by
        rw [AsPart.text, words_withoutLayout_append ⟨a.before_ne_nil, hlayout _ hfirst⟩, hname,
          words_withoutLayout_append ⟨a.between_ne_nil, hlayout _ hsecond⟩,
          words_withoutLayout_of_isIdentifier a.isIdentifier]
        rfl
      rw [Option.elim_some, hsplit]
      exact if_pos (Bool.and_eq_true_iff.2 ⟨i.isPath, a.isIdentifier⟩)

/-- A comment is no part of a name. -/
theorem item?_words_of_isCommented (h : i.isCommented = true) :
    item? (words (withoutLayout i.text)) = none := by
  have hplain : isLayoutChar '#' = false := by decide
  have hmem := (mem_withoutLayout hplain).2 (List.elem_iff.1 h)
  obtain ⟨w, hw, hin⟩ := exists_word_of_mem hmem (by decide)
  exact item?_eq_none hw hin (by decide)

end Item

/-! ## Statements -/

/-- A list of names, with what stands after a comma at its end. -/
structure NameList where
  items : List Item
  trailing : Option Layout

namespace NameList

/-- What stands between the commas. -/
def stretches (l : NameList) : List (List Char) :=
  l.items.map Item.text ++ l.trailing.toList.map Layout.chars

/-- The list as it is written. -/
def text (l : NameList) : List Char :=
  [','].intercalate l.stretches

/-- After the last comma there is no name. -/
theorem item?_words_layout (l : Layout) : item? (words (withoutLayout l.chars)) = none := by
  by_cases hplain : '#' ∈ l.chars
  · have hin : '#' ∈ withoutLayout l.chars := (mem_withoutLayout (by decide)).2 hplain
    obtain ⟨w, hw, hmem⟩ := exists_word_of_mem hin (by decide)
    exact item?_eq_none hw hmem (by decide)
  · have hblank := isBlank_of_mem_withoutLayout (isLayoutChar_of_isLayoutFrom l.isLayout hplain)
    rw [words_of_blanks hblank]
    rfl

theorem comma_not_mem_stretches (l : NameList) :
    ∀ cs ∈ l.stretches.map withoutLayout, ',' ∉ cs := by
  intro cs hcs
  obtain ⟨stretch, hstretch, rfl⟩ := List.mem_map.1 hcs
  rw [mem_withoutLayout (by decide)]
  rcases List.mem_append.1 hstretch with hitem | hend
  · obtain ⟨i, -, rfl⟩ := List.mem_map.1 hitem
    exact i.comma_not_mem
  · obtain ⟨layout, -, rfl⟩ := List.mem_map.1 hend
    exact comma_not_mem_of_isLayoutFrom layout.isLayout

/-- The names read from the stretches of the items. -/
theorem filterMap_items (is : List Item) :
    (is.filterMap fun i => item? (words (withoutLayout i.text))) =
      (is.filter fun i => !i.isCommented).map Item.read := by
  induction is with
  | nil => rfl
  | cons i is ih =>
      cases hcommented : i.isCommented with
      | false =>
          rw [List.filterMap_cons, i.item?_words hcommented,
            List.filter_cons_of_pos (by simp [hcommented]), List.map_cons, ih]
      | true =>
          rw [List.filterMap_cons, i.item?_words_of_isCommented hcommented,
            List.filter_cons_of_neg (by simp [hcommented]), ih]

/-- The names of a list are those without a comment between their commas, in order. -/
theorem items_text (l : NameList) :
    Import.items (withoutLayout l.text) =
      (l.items.filter fun i => !i.isCommented).map Item.read := by
  have hpieces : (pieces (· == ',') (withoutLayout l.text)).filterMap (fun p => item? (words p)) =
      (l.stretches.map withoutLayout).filterMap fun p => item? (words p) := by
    by_cases hempty : l.stretches = []
    · rw [text, hempty]
      rfl
    · rw [text, withoutLayout_intercalate, pieces_intercalate (mt List.map_eq_nil_iff.1 hempty)
        l.comma_not_mem_stretches]
  have htrailing : (l.trailing.toList.map Layout.chars).filterMap
      (fun cs => item? (words (withoutLayout cs))) = [] := by
    refine List.filterMap_eq_nil_iff.2 fun cs hcs => ?_
    obtain ⟨layout, -, rfl⟩ := List.mem_map.1 hcs
    exact item?_words_layout layout
  rw [Import.items, hpieces, List.filterMap_map, stretches, List.filterMap_append]
  refine (congrArg (_ ++ ·) htrailing).trans ?_
  rw [List.append_nil, List.filterMap_map]
  exact filterMap_items l.items

end NameList

/-- What stands before the list where members of a module are imported. -/
structure Origin where
  before : List Char
  module : List Char
  after : List Char
  before_isGap : IsGap before
  after_isGap : IsGap after
  isPath : isPath module = true

/-- What an import with the origin binds for a name and its alias. -/
def Origin.entry (origin : Option Origin) (line : Nat) (item : String × Option String) : Import :=
  match origin with
  | none => { module := item.1, asName := item.2, line }
  | some o => { module := String.ofList o.module, name := some item.1, asName := item.2, line }

/-- The keyword before a list is set off from it. -/
def IsOpened (list : List Char) : Prop :=
  ∃ c cs, list = c :: cs ∧ isLayoutChar c = true

/-- What is written before a list. -/
def Origin.textBefore (origin : Option Origin) (list : List Char) : List Char :=
  match origin with
  | none => ['i', 'm', 'p', 'o', 'r', 't'] ++ list
  | some o => ['f', 'r', 'o', 'm'] ++
      (o.before ++ (o.module ++ (o.after ++ (['i', 'm', 'p', 'o', 'r', 't'] ++ list))))

theorem words_import_append {list : List Char} (hopened : IsOpened list) :
    words (withoutLayout (['i', 'm', 'p', 'o', 'r', 't'] ++ list)) =
      ['i', 'm', 'p', 'o', 'r', 't'] :: words (withoutLayout list) := by
  obtain ⟨c, cs, rfl, hc⟩ := hopened
  have hgap : IsGap [c] := ⟨List.cons_ne_nil c [], by simpa using hc⟩
  have hparted : ∀ start, words (withoutLayout (start ++ c :: cs)) =
      words (withoutLayout start) ++ words (withoutLayout cs) :=
    fun start => words_withoutLayout_append hgap start cs
  rw [hparted, show words (withoutLayout (c :: cs)) = words (withoutLayout cs) from hparted []]
  rfl

/-- A list that is set off from the keyword is read from its own text. -/
theorem ofStatement_textBefore (origin : Option Origin) {list : List Char}
    (hopened : IsOpened list) (line : Nat) :
    ofStatement (String.ofList (Origin.textBefore origin list)) line =
      (Import.items (withoutLayout list)).map (Origin.entry origin line) := by
  have hitems : Import.items ([' '].intercalate (words (withoutLayout list))) =
      Import.items (withoutLayout list) := items_collapseBlanks _
  rw [ofStatement, String.toList_ofList]
  cases origin with
  | none =>
      rw [Origin.textBefore, words_import_append hopened]
      show (Import.items ([' '].intercalate (words (withoutLayout list)))).map _ = _
      rw [hitems]
      rfl
  | some o =>
      have hmodule : words (withoutLayout o.module) = [o.module] :=
        words_withoutLayout_of_isPath o.isPath
      have hwords : words (withoutLayout (Origin.textBefore (some o) list)) =
          ['f', 'r', 'o', 'm'] :: o.module :: ['i', 'm', 'p', 'o', 'r', 't'] ::
            words (withoutLayout list) := by
        rw [Origin.textBefore, words_withoutLayout_append o.before_isGap,
          words_withoutLayout_append o.after_isGap, hmodule, words_import_append hopened]
        rfl
      rw [hwords]
      show (if isPath o.module = true then
        (Import.items ([' '].intercalate (words (withoutLayout list)))).map _ else []) = _
      rw [if_pos o.isPath, hitems]
      rfl

/-- An import statement as it is written: a list of modules, or of members of one module. -/
structure Statement where
  origin : Option Origin
  list : NameList
  isOpened : IsOpened list.text

namespace Statement

/-- The statement as it is written. -/
def text (s : Statement) : String :=
  String.ofList (Origin.textBefore s.origin s.list.text)

/-- What the names of the statement bind, in order. -/
def imports (s : Statement) (line : Nat) : List Import :=
  s.list.items.map fun i => Origin.entry s.origin line i.read

end Statement

/-- Whatever the layout, a statement is read name by name, but for the names with a comment between
their commas. -/
theorem ofStatement_text (s : Statement) (line : Nat) :
    ofStatement s.text line =
      (s.list.items.filter fun i => !i.isCommented).map fun i =>
        Origin.entry s.origin line i.read := by
  rw [Statement.text, ofStatement_textBefore s.origin s.isOpened, NameList.items_text, List.map_map]
  rfl

/-- All names of a statement are read exactly if no comment stands between the commas around one. -/
theorem ofStatement_text_iff (s : Statement) (line : Nat) :
    ofStatement s.text line = s.imports line ↔
      ∀ i ∈ s.list.items, i.isCommented = false := by
  rw [ofStatement_text, Statement.imports]
  constructor
  · intro h i hi
    have hlength := congrArg List.length h
    rw [List.length_map, List.length_map, List.length_filter_eq_length_iff] at hlength
    simpa using hlength i hi
  · intro h
    rw [List.filter_eq_self.2 fun i hi => by simp [h i hi]]

/-- A star binds no names, whatever the layout. -/
theorem ofStatement_star (o : Origin) (before after : Layout)
    (hopened : IsOpened (before.chars ++ '*' :: after.chars)) (line : Nat) :
    ofStatement (String.ofList (Origin.textBefore (some o) (before.chars ++ '*' :: after.chars)))
      line = [] := by
  have hcomma : ',' ∉ withoutLayout (before.chars ++ '*' :: after.chars) := by
    rw [mem_withoutLayout (by decide), List.mem_append, not_or]
    exact ⟨comma_not_mem_of_isLayoutFrom before.isLayout,
      List.not_mem_cons_of_ne_of_not_mem (by decide) (comma_not_mem_of_isLayoutFrom after.isLayout)⟩
  have hkept : ∀ c ∈ withoutLayout (before.chars ++ '*' :: after.chars), (c == ',') = false := by
    intro c hc
    refine beq_eq_false_iff_ne.2 ?_
    rintro rfl
    exact hcomma hc
  have hstar : '*' ∈ withoutLayout (before.chars ++ '*' :: after.chars) := by
    rw [mem_withoutLayout (by decide)]
    exact List.mem_append_right _ List.mem_cons_self
  obtain ⟨w, hw, hin⟩ := exists_word_of_mem hstar (by decide)
  rw [ofStatement_textBefore (some o) hopened, Import.items,
    pieces_of_forall hkept, List.filterMap_cons, item?_eq_none hw hin (by decide)]
  rfl

/-- A dotted module that is written in several words is not read, and the whole statement is lost
with it. -/
theorem ofStatement_of_split {before between after first second rest : List Char}
    (hfirst : isPath first = true) (hsecond : isPath second = true)
    (hne : second ≠ ['i', 'm', 'p', 'o', 'r', 't'])
    (hbefore : IsGap before) (hbetween : IsGap between) (hafter : IsGap after) (line : Nat) :
    ofStatement (String.ofList (['f', 'r', 'o', 'm'] ++
      (before ++ (first ++ (between ++ (second ++ (after ++ rest))))))) line = [] := by
  have hwords : words (withoutLayout (['f', 'r', 'o', 'm'] ++
      (before ++ (first ++ (between ++ (second ++ (after ++ rest))))))) =
      ['f', 'r', 'o', 'm'] :: first :: second :: words (withoutLayout rest) := by
    rw [words_withoutLayout_append hbefore, words_withoutLayout_append hbetween,
      words_withoutLayout_append hafter, words_withoutLayout_of_isPath hfirst,
      words_withoutLayout_of_isPath hsecond]
    rfl
  rw [ofStatement, String.toList_ofList, hwords]
  split
  · next heq => exact absurd (List.cons.inj (List.cons.inj (List.cons.inj heq).2).2).1 hne
  · next heq => exact absurd (List.cons.inj heq).1 (by decide)
  · rfl

/-- Whether all names of a statement are read, whatever its layout. -/
def ReadsAll : Prop :=
  ∀ (s : Statement) (line : Nat), ofStatement s.text line = s.imports line

/-- Two names, with a comment behind the comma of the first. -/
def buyers : Statement where
  origin := some {
    before := [' ']
    module := "models".toList
    after := [' ']
    before_isGap := by decide
    after_isGap := by decide
    isPath := by decide }
  list := {
    items := [
      { before := ⟨" (\n    ".toList, by decide⟩
        name := "User".toList
        asPart := none
        after := ⟨[], by decide⟩
        isPath := by decide },
      { before := ⟨"  # who buys\n    ".toList, by decide⟩
        name := "Order".toList
        asPart := none
        after := ⟨[], by decide⟩
        isPath := by decide }]
    trailing := some ⟨"\n)".toList, by decide⟩ }
  isOpened := ⟨' ', "(\n    User,  # who buys\n    Order,\n)".toList, by decide, by decide⟩

/-- Behind the comment the second name is lost; a comment with commas may even bind a name of its
own, and a space after the dot loses the whole statement. -/
theorem not_readsAll :
    buyers.text = "from models import (\n    User,  # who buys\n    Order,\n)" ∧
    (ofStatement buyers.text 1).map boundName = ["User"] ∧
    (buyers.imports 1).map boundName = ["User", "Order"] ∧
    (ofStatement "from pkg import (\n    a,  # b, c, d\n    e,\n)" 1).map boundName = ["a", "c"] ∧
    ofStatement "from . models import User" 1 = [] ∧
    ¬ ReadsAll := by
  refine ⟨by decide, by decide +kernel, by decide, by decide +kernel, by decide +kernel, ?_⟩
  intro hright
  have hread := (ofStatement_text_iff buyers 1).1 (hright buyers 1)
  exact absurd hread (by decide)

end CallFill.Import
