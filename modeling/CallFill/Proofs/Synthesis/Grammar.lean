import CallFill.Proofs.Synthesis.Term
import CallFill.Proofs.Text.Names

/-!
# The grammar of written values

Which terms are expressions: a term of the grammar calls dotted names and gives values to
identifiers, and its records and tuples are not empty. No text is the rendering of two of them
(`InGrammar.eq_of_render_eq`), so what is said of the term of a value is said of its text. The
proof reads two renderings of one text from the left: the first character tells which rule of the
grammar was used, a name ends at the mark behind it, and behind a part of a term the same text is
left on both sides.
-/

namespace CallFill

namespace Term

open Text

/-- The terms of the grammar

    E := ... | N() | N(...) | N(k=E, ..., k=E) | [E] | {E} | {E: E} | (E) | (E, ..., E)

where `N` is a dotted name and `k` an identifier. -/
inductive InGrammar : Term → Prop where
  | sentinel : InGrammar .sentinel
  | call {name : String} : IsDottedName name.toList → InGrammar (.call name)
  | placeholder {name : String} : IsDottedName name.toList → InGrammar (.placeholder name)
  | record {name : String} {fields : List (String × Term)} :
      IsDottedName name.toList → fields ≠ [] → (∀ f ∈ fields, IsIdentifier f.1.toList) →
      (∀ f ∈ fields, InGrammar f.2) → InGrammar (.record name fields)
  | list {item : Term} : InGrammar item → InGrammar (.list item)
  | set {item : Term} : InGrammar item → InGrammar (.set item)
  | tuple {items : List Term} :
      items ≠ [] → (∀ t ∈ items, InGrammar t) → InGrammar (.tuple items)
  | dict {key value : Term} : InGrammar key → InGrammar value → InGrammar (.dict key value)

/-! ## The characters of a term -/

/-- The characters of a field: its name, an equals sign and its value. -/
def fieldChars (f : String × Term) : List Char :=
  f.1.toList ++ '=' :: f.2.render.toList

/-- Texts with commas between them, up to the closing parenthesis. -/
def closedList (texts : List (List Char)) : List Char :=
  ", ".toList.intercalate texts ++ [')']

theorem toList_render_call (name : String) :
    (call name).render.toList = name.toList ++ '(' :: [')'] := by
  rw [render, String.toList_append]
  rfl

theorem toList_render_placeholder (name : String) :
    (placeholder name).render.toList = name.toList ++ '(' :: ['.', '.', '.', ')'] := by
  rw [render, aliasPlaceholder]
  simp only [String.toList_append, List.append_assoc]
  rfl

theorem toList_render_record (name : String) (fields : List (String × Term)) :
    (record name fields).render.toList =
      name.toList ++ '(' :: closedList (fields.map fieldChars) := by
  have hfield : ∀ f : String × Term, (f.1 ++ "=" ++ f.2.render).toList = fieldChars f := by
    intro f
    simp only [String.toList_append, List.append_assoc]
    rfl
  rw [render, renderFields_eq_map, closedList]
  simp only [String.toList_append, String.toList_intercalate, List.map_map, Function.comp_def,
    hfield, List.append_assoc]
  rfl

theorem toList_render_list (item : Term) :
    (list item).render.toList = '[' :: (item.render.toList ++ [']']) := by
  rw [render]
  simp only [String.toList_append]
  rfl

theorem toList_render_set (item : Term) :
    (set item).render.toList = '\x7b' :: (item.render.toList ++ ['\x7d']) := by
  rw [render]
  simp only [String.toList_append]
  rfl

theorem toList_render_tuple (items : List Term) :
    (tuple items).render.toList = '(' :: closedList (items.map fun t => t.render.toList) := by
  rw [render, renderItems_eq_map, closedList]
  simp only [String.toList_append, String.toList_intercalate, List.map_map, Function.comp_def]
  rfl

theorem toList_render_dict (key value : Term) :
    (dict key value).render.toList =
      '\x7b' :: (key.render.toList ++ ':' :: ' ' :: (value.render.toList ++ ['\x7d'])) := by
  rw [render]
  simp only [String.toList_append, List.append_assoc]
  rfl

/-! ## The first character -/

/-- What a term opens with. -/
inductive Opening where
  | dots
  | square
  | brace
  | round
  | name

/-- What a term that starts with the character opens with. -/
def Opening.ofChar (c : Char) : Opening :=
  if c = '.' then dots
  else if c = '[' then square
  else if c = '\x7b' then brace
  else if c = '(' then round
  else name

/-- What the text of a term opens with. -/
def opening : Term → Opening
  | sentinel => .dots
  | call _ | placeholder _ | record _ _ => .name
  | list _ => .square
  | set _ | dict _ _ => .brace
  | tuple _ => .round

/-- A character that may open a name is none of the marks that open other terms. -/
theorem ofChar_of_start {c : Char} (h : isIdentifierStart c = true) :
    Opening.ofChar c = .name := by
  have hne : ∀ d : Char, isIdentifierStart d = false → c ≠ d := by
    rintro d hd rfl
    rw [h] at hd
    exact Bool.noConfusion hd
  rw [Opening.ofChar, if_neg (hne '.' (by decide)), if_neg (hne '[' (by decide)),
    if_neg (hne '\x7b' (by decide)), if_neg (hne '(' (by decide))]

/-- What begins with a name opens with one, whatever follows it. -/
theorem ofChar_of_name {name : String} (h : IsDottedName name.toList) (rest : List Char) :
    ∃ c cs, name.toList ++ rest = c :: cs ∧ Opening.ofChar c = .name := by
  obtain ⟨c, cs, hcs, hc⟩ := h.opensName
  exact ⟨c, cs ++ rest, by rw [hcs, List.cons_append], ofChar_of_start hc⟩

variable {t u : Term} {xs ys : List Char}

/-- The first character of a term's text tells what the term opens with. -/
theorem InGrammar.ofChar_head (h : t.InGrammar) :
    ∃ c cs, t.render.toList = c :: cs ∧ Opening.ofChar c = t.opening := by
  cases h with
  | sentinel => exact ⟨'.', ['.', '.'], by rw [render]; rfl, rfl⟩
  | call hname =>
      rw [toList_render_call]
      exact ofChar_of_name hname _
  | placeholder hname =>
      rw [toList_render_placeholder]
      exact ofChar_of_name hname _
  | record hname _ _ _ =>
      rw [toList_render_record]
      exact ofChar_of_name hname _
  | list _ => exact ⟨'[', _, toList_render_list _, rfl⟩
  | set _ => exact ⟨'\x7b', _, toList_render_set _, rfl⟩
  | tuple _ _ => exact ⟨'(', _, toList_render_tuple _, rfl⟩
  | dict _ _ => exact ⟨'\x7b', _, toList_render_dict _ _, rfl⟩

/-- Terms that are rendered at one place in a text open alike. -/
theorem opening_eq (ht : t.InGrammar) (hu : u.InGrammar)
    (h : t.render.toList ++ xs = u.render.toList ++ ys) : t.opening = u.opening := by
  obtain ⟨c, cs, hcs, hc⟩ := ht.ofChar_head
  obtain ⟨d, ds, hds, hd⟩ := hu.ofChar_head
  rw [hcs, hds] at h
  rw [← hc, ← hd, (List.cons.inj h).1]

/-! ## Reading a term -/

/-- Where a text starts with the term's text, it starts with that of no other term of the grammar,
and the rest is settled. -/
def ReadsAlone (t : Term) : Prop :=
  ∀ (u : Term) (xs ys : List Char), u.InGrammar →
    t.render.toList ++ xs = u.render.toList ++ ys → t = u ∧ xs = ys

/-- Two lists with commas between their parts have the same parts, if each part is settled by the
text it starts. -/
theorem closedList_inj {α : Type} {chars : α → List Char} {Good : α → Prop} {as bs : List α}
    (has : ∀ a ∈ as, ∀ b xs ys, Good b → chars a ++ xs = chars b ++ ys → a = b ∧ xs = ys)
    (hbs : ∀ b ∈ bs, Good b) (ha : as ≠ []) (hb : bs ≠ [])
    (h : closedList (as.map chars) ++ xs = closedList (bs.map chars) ++ ys) :
    as = bs ∧ xs = ys := by
  induction as generalizing bs with
  | nil => exact absurd rfl ha
  | cons a as ih =>
      cases bs with
      | nil => exact absurd rfl hb
      | cons b bs =>
          have hpart := has a List.mem_cons_self
          have hgood := hbs b List.mem_cons_self
          have hone : ∀ x : List Char, closedList [x] = x ++ [')'] := by
            intro x
            rw [closedList, List.intercalate_singleton]
          have hmore : ∀ (x y : List Char) (zs : List (List Char)),
              closedList (x :: y :: zs) = x ++ ',' :: ' ' :: closedList (y :: zs) := by
            intro x y zs
            rw [closedList, List.intercalate_cons_cons, closedList]
            simp only [List.append_assoc]
            rfl
          -- whether the list goes on is read off what follows the part: a comma or the closing mark
          cases as with
          | nil =>
              cases bs with
              | nil =>
                  simp only [List.map_cons, List.map_nil, hone, List.append_assoc] at h
                  obtain ⟨rfl, hrest⟩ := hpart b _ _ hgood h
                  exact ⟨rfl, (List.cons.inj hrest).2⟩
              | cons b' bs =>
                  simp only [List.map_cons, List.map_nil, hone, hmore, List.append_assoc] at h
                  obtain ⟨-, hrest⟩ := hpart b _ _ hgood h
                  exact absurd (List.cons.inj hrest).1 (by decide)
          | cons a' as =>
              cases bs with
              | nil =>
                  simp only [List.map_cons, List.map_nil, hone, hmore, List.append_assoc] at h
                  obtain ⟨-, hrest⟩ := hpart b _ _ hgood h
                  exact absurd (List.cons.inj hrest).1 (by decide)
              | cons b' bs =>
                  simp only [List.map_cons, hmore, List.append_assoc, List.cons_append] at h
                  obtain ⟨rfl, hrest⟩ := hpart b _ _ hgood h
                  obtain ⟨heq, hxs⟩ := ih (fun c hc => has c (List.mem_cons_of_mem _ hc))
                    (fun c hc => hbs c (List.mem_cons_of_mem _ hc)) (List.cons_ne_nil _ _)
                    (List.cons_ne_nil _ _) (List.cons.inj (List.cons.inj hrest).2).2
                  exact ⟨by rw [heq], hxs⟩

/-- The fields of a record open with a name. -/
theorem opensName_closedList {fields : List (String × Term)} (hne : fields ≠ [])
    (hnames : ∀ f ∈ fields, IsIdentifier f.1.toList) :
    OpensName (closedList (fields.map fieldChars)) := by
  cases fields with
  | nil => exact absurd rfl hne
  | cons f fields =>
      have hname := (hnames f List.mem_cons_self).opensName
      obtain ⟨rest, hrest⟩ : ∃ rest, closedList ((f :: fields).map fieldChars) =
          fieldChars f ++ rest := by
        cases fields with
        | nil => exact ⟨[')'], by rw [closedList]; simp⟩
        | cons g fields =>
            rw [closedList, List.map_cons, List.map_cons, List.intercalate_cons_cons]
            simp only [List.append_assoc]
            exact ⟨_, rfl⟩
      rw [hrest, fieldChars]
      exact (hname.append _).append rest

/-- The fields of a record do not begin with a mark. -/
theorem ne_closedList_append {c : Char} (hc : isIdentifierStart c = false)
    {fields : List (String × Term)} (hne : fields ≠ [])
    (hnames : ∀ f ∈ fields, IsIdentifier f.1.toList) (cs ys : List Char) :
    c :: cs ≠ closedList (fields.map fieldChars) ++ ys := by
  intro h
  have hopens := (opensName_closedList hne hnames).append ys
  rw [← h] at hopens
  exact not_opensName_cons hc cs hopens

/-- What a text that starts with a call is, read as a term of the grammar: a call of the same name,
and what stands behind the parenthesis tells which. -/
theorem InGrammar.called_cases {name : String} (hu : u.InGrammar)
    (hname : IsDottedName name.toList) (h : name.toList ++ '(' :: xs = u.render.toList ++ ys) :
    (u = .call name ∧ xs = ')' :: ys) ∨
    (u = .placeholder name ∧ xs = ['.', '.', '.', ')'] ++ ys) ∨
    ∃ fields, u = .record name fields ∧ fields ≠ [] ∧
      (∀ f ∈ fields, IsIdentifier f.1.toList) ∧ (∀ f ∈ fields, InGrammar f.2) ∧
      xs = closedList (fields.map fieldChars) ++ ys := by
  have hsame : ∀ {other : String} {rest : List Char}, IsDottedName other.toList →
      name.toList ++ '(' :: xs = other.toList ++ '(' :: rest → other = name ∧ xs = rest := by
    intro other rest hother heq
    obtain ⟨hnames, hrest⟩ := name_append_inj hname.isNameChar hother.isNameChar
      (by decide) (by decide) heq
    exact ⟨(String.toList_inj.1 hnames).symm, (List.cons.inj hrest).2⟩
  obtain ⟨c, cs, hcs, hc⟩ := ofChar_of_name hname ('(' :: xs)
  obtain ⟨d, ds, hds, hd⟩ := hu.ofChar_head
  have hopening : u.opening = .name := by
    rw [hcs, hds] at h
    rw [← hd, ← hc, (List.cons.inj h).1]
  cases hu with
  | call hother =>
      rw [toList_render_call, List.append_assoc] at h
      obtain ⟨rfl, rfl⟩ := hsame hother h
      exact Or.inl ⟨rfl, rfl⟩
  | placeholder hother =>
      rw [toList_render_placeholder, List.append_assoc] at h
      obtain ⟨rfl, rfl⟩ := hsame hother h
      exact Or.inr (Or.inl ⟨rfl, rfl⟩)
  | record hother hne hnames hvalues =>
      rw [toList_render_record, List.append_assoc] at h
      obtain ⟨rfl, rfl⟩ := hsame hother h
      exact Or.inr (Or.inr ⟨_, rfl, hne, hnames, hvalues, rfl⟩)
  | _ => exact nomatch hopening

/-- A field is settled by the text it starts, if its value is. -/
theorem field_append_inj {f g : String × Term} (hf : IsIdentifier f.1.toList)
    (hg : IsIdentifier g.1.toList) (halone : f.2.ReadsAlone) (hvalue : g.2.InGrammar)
    (h : fieldChars f ++ xs = fieldChars g ++ ys) : f = g ∧ xs = ys := by
  rw [fieldChars, fieldChars, List.append_assoc, List.append_assoc] at h
  obtain ⟨hnames, hrest⟩ := name_append_inj hf.isNameChar hg.isNameChar (by decide) (by decide) h
  obtain ⟨hvalues, hxs⟩ := halone g.2 xs ys hvalue (List.cons.inj hrest).2
  exact ⟨Prod.ext (String.toList_inj.1 hnames) hvalues, hxs⟩

/-- Every term of the grammar is settled by the text it starts. -/
theorem InGrammar.readsAlone (h : t.InGrammar) : t.ReadsAlone := by
  -- the opening character leaves one or two forms for the other term; what follows tells these
  -- apart
  induction h with
  | sentinel =>
      intro u xs ys hu heq
      have hopening := opening_eq .sentinel hu heq
      cases hu with
      | sentinel => exact ⟨rfl, List.append_cancel_left heq⟩
      | _ => exact nomatch hopening
  | call hname =>
      intro u xs ys hu heq
      rw [toList_render_call, List.append_assoc] at heq
      rcases hu.called_cases hname heq with ⟨rfl, hrest⟩ | ⟨-, hrest⟩ |
        ⟨fields, -, hne, hnames, -, hrest⟩
      · exact ⟨rfl, (List.cons.inj hrest).2⟩
      · exact absurd (List.cons.inj hrest).1 (by decide)
      · exact absurd hrest (ne_closedList_append (by decide) hne hnames _ ys)
  | placeholder hname =>
      intro u xs ys hu heq
      rw [toList_render_placeholder, List.append_assoc] at heq
      rcases hu.called_cases hname heq with ⟨-, hrest⟩ | ⟨rfl, hrest⟩ |
        ⟨fields, -, hne, hnames, -, hrest⟩
      · exact absurd (List.cons.inj hrest).1 (by decide)
      · exact ⟨rfl, List.append_cancel_left hrest⟩
      · exact absurd hrest (ne_closedList_append (by decide) hne hnames _ ys)
  | @record name fields hname hne hnames hvalues ih =>
      intro u xs ys hu heq
      rw [toList_render_record, List.append_assoc, List.cons_append] at heq
      rcases hu.called_cases hname heq with ⟨-, hrest⟩ | ⟨-, hrest⟩ |
        ⟨others, rfl, hne', hnames', hvalues', hrest⟩
      · exact absurd hrest.symm (ne_closedList_append (by decide) hne hnames _ xs)
      · exact absurd hrest.symm (ne_closedList_append (by decide) hne hnames _ xs)
      · have hfields : ∀ f ∈ fields, ∀ g xs ys,
            (IsIdentifier g.1.toList ∧ g.2.InGrammar) →
            fieldChars f ++ xs = fieldChars g ++ ys → f = g ∧ xs = ys := by
          rintro f hf g xs ys ⟨hname', hvalue⟩ hpart
          exact field_append_inj (hnames f hf) hname' (ih f hf) hvalue hpart
        obtain ⟨rfl, hxs⟩ := closedList_inj hfields
          (fun g hg => ⟨hnames' g hg, hvalues' g hg⟩) hne hne' hrest
        exact ⟨rfl, hxs⟩
  | list _ ih =>
      intro u xs ys hu heq
      have hopening := opening_eq (.list ‹_›) hu heq
      cases hu with
      | list hitem =>
          rw [toList_render_list, toList_render_list] at heq
          simp only [List.cons_append, List.append_assoc] at heq
          obtain ⟨rfl, hrest⟩ := ih _ _ _ hitem (List.cons.inj heq).2
          exact ⟨rfl, (List.cons.inj hrest).2⟩
      | _ => exact nomatch hopening
  | set _ ih =>
      intro u xs ys hu heq
      have hopening := opening_eq (.set ‹_›) hu heq
      rw [toList_render_set] at heq
      simp only [List.cons_append, List.append_assoc] at heq
      cases hu with
      | set hitem =>
          rw [toList_render_set] at heq
          simp only [List.cons_append, List.append_assoc] at heq
          obtain ⟨rfl, hrest⟩ := ih _ _ _ hitem (List.cons.inj heq).2
          exact ⟨rfl, (List.cons.inj hrest).2⟩
      | dict hkey _ =>
          rw [toList_render_dict] at heq
          simp only [List.cons_append, List.append_assoc] at heq
          -- a set and a dict open alike, but behind the first part one closes and the other has a
          -- colon
          obtain ⟨-, hrest⟩ := ih _ _ _ hkey (List.cons.inj heq).2
          exact absurd (List.cons.inj hrest).1 (by decide)
      | _ => exact nomatch hopening
  | tuple hne hitems ih =>
      intro u xs ys hu heq
      have hopening := opening_eq (.tuple hne hitems) hu heq
      cases hu with
      | tuple hne' hitems' =>
          rw [toList_render_tuple, toList_render_tuple] at heq
          simp only [List.cons_append] at heq
          obtain ⟨rfl, hxs⟩ := closedList_inj ih hitems' hne hne' (List.cons.inj heq).2
          exact ⟨rfl, hxs⟩
      | _ => exact nomatch hopening
  | dict _ _ ihkey ihvalue =>
      intro u xs ys hu heq
      have hopening := opening_eq (.dict ‹_› ‹_›) hu heq
      rw [toList_render_dict] at heq
      simp only [List.cons_append, List.append_assoc] at heq
      cases hu with
      | set hitem =>
          rw [toList_render_set] at heq
          simp only [List.cons_append, List.append_assoc] at heq
          obtain ⟨-, hrest⟩ := ihkey _ _ _ hitem (List.cons.inj heq).2
          exact absurd (List.cons.inj hrest).1 (by decide)
      | dict hkey hvalue =>
          rw [toList_render_dict] at heq
          simp only [List.cons_append, List.append_assoc] at heq
          obtain ⟨rfl, hrest⟩ := ihkey _ _ _ hkey (List.cons.inj heq).2
          obtain ⟨rfl, hlast⟩ := ihvalue _ _ _ hvalue (List.cons.inj (List.cons.inj hrest).2).2
          exact ⟨rfl, (List.cons.inj hlast).2⟩
      | _ => exact nomatch hopening

/-- Two terms of the grammar that render alike are the same. -/
theorem InGrammar.eq_of_render_eq (ht : t.InGrammar) (hu : u.InGrammar)
    (h : t.render = u.render) : t = u := by
  have heq : t.render.toList ++ [] = u.render.toList ++ [] := by rw [h]
  exact (ht.readsAlone u [] [] hu heq).1

end Term

end CallFill
