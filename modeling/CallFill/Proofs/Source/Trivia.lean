import CallFill.Source.Lexer

/-!
# Blanks and comments

What stands between two tokens is read by an automaton with two states, inside and outside a
comment: `scan` says in which of them a text ends, if it consists of blanks and comments at all. A
text that leaves no token ends outside. Between the parentheses of a call without arguments commas
may stand as well, which are left out for the reading (`IsVacant`): no line of such a text after the
first starts with a letter, and it never ends like the text of a keyword argument.
-/

namespace CallFill.Source

/-- Whether blanks and comments, read from inside or outside a comment, end inside one; none for
other texts. -/
def scan : (inComment : Bool) → List Char → Option Bool
  | inComment, [] => some inComment
  | true, c :: cs => scan (c != '\n') cs
  | false, c :: cs =>
    if c == '#' then scan true cs
    else if Lexer.isFiller c then scan false cs
    else none

/-- The text leaves no token: blanks, and comments with their line ends. -/
def IsTrivia (cs : List Char) : Prop :=
  scan false cs = some false

/-- The text without its commas. -/
def withoutCommas (cs : List Char) : List Char :=
  cs.filter (· != ',')

/-- The text leaves no token but commas. -/
def IsVacant (cs : List Char) : Prop :=
  IsTrivia (withoutCommas cs)

/-- Wherever the text is put, what ends with it leaves a token other than a comma. -/
def NeverVacant (cs : List Char) : Prop :=
  ∀ s, scan s (withoutCommas cs) ≠ some false

variable {s t : Bool} {c : Char} {cs ds : List Char}

theorem scan_true_cons : scan true (c :: cs) = scan (c != '\n') cs := rfl

theorem scan_false_hash : scan false ('#' :: cs) = scan true cs := rfl

/-- Outside of a comment a blank is passed over. -/
theorem scan_false_filler (h : Lexer.isFiller c = true) : scan false (c :: cs) = scan false cs := by
  have hne : (c == '#') = false := by
    rw [beq_eq_false_iff_ne]
    rintro rfl
    exact absurd h (by decide)
  rw [scan, hne, h]
  rfl

/-- Outside of a comment any other character stops the scan. -/
theorem scan_false_other (hhash : c ≠ '#') (h : Lexer.isFiller c = false) :
    scan false (c :: cs) = none := by
  have hne : (c == '#') = false := beq_eq_false_iff_ne.2 hhash
  rw [scan, hne, h]
  rfl

/-- A text is read by reading its parts one after the other. -/
theorem scan_append (s : Bool) (cs ds : List Char) :
    scan s (cs ++ ds) = (scan s cs).bind fun t => scan t ds := by
  induction cs generalizing s with
  | nil => rfl
  | cons c cs ih =>
      cases s with
      | true => exact ih (c != '\n')
      | false =>
          rw [List.cons_append]
          by_cases hhash : c = '#'
          · subst hhash
            exact ih true
          · cases hfill : Lexer.isFiller c with
            | true => rw [scan_false_filler hfill, scan_false_filler hfill, ih]
            | false =>
                rw [scan_false_other hhash hfill, scan_false_other hhash hfill]
                rfl

/-- The part of a readable text behind some point is readable from one of the states. -/
theorem scan_of_append (cs : List Char) (h : scan s (cs ++ ds) = some t) :
    ∃ r, scan r ds = some t := by
  rw [scan_append] at h
  obtain ⟨r, _, hr⟩ := Option.bind_eq_some_iff.1 h
  exact ⟨r, hr⟩

/-- A comment that has begun goes on to the end of its line. -/
theorem scan_true_of_no_newline (h : ∀ c ∈ cs, c ≠ '\n') : scan true cs = some true := by
  induction cs with
  | nil => rfl
  | cons c cs ih =>
      have hne : (c != '\n') = true := bne_iff_ne.2 (h c List.mem_cons_self)
      rw [scan_true_cons, hne]
      exact ih fun d hd => h d (List.mem_cons_of_mem c hd)

/-- Once a line has ended, it does not matter where the reading began. -/
theorem scan_eq_of_newline {s' t' : Bool} (h : scan s cs = some t) (h' : scan s' cs = some t')
    (hline : '\n' ∈ cs) : t = t' := by
  induction cs generalizing s s' with
  | nil => exact absurd hline List.not_mem_nil
  | cons c cs ih =>
      by_cases hc : c = '\n'
      · subst hc
        have hrest : ∀ r, scan r ('\n' :: cs) = scan false cs := by
          intro r
          cases r with
          | true => rfl
          | false => exact scan_false_filler (by decide)
        rw [hrest] at h h'
        exact Option.some.inj (h.symm.trans h')
      · have hmem : '\n' ∈ cs := by
          rcases List.mem_cons.1 hline with heq | hmem
          · exact absurd heq.symm hc
          · exact hmem
        have hnext : ∀ {r u : Bool}, scan r (c :: cs) = some u → ∃ r', scan r' cs = some u := by
          intro r u hr
          exact scan_of_append [c] hr
        obtain ⟨r, hr⟩ := hnext h
        obtain ⟨r', hr'⟩ := hnext h'
        exact ih hr hr' hmem

/-- What is read without a comment are blanks. -/
theorem isFiller_of_scan (h : scan false cs = some t) (hsign : '#' ∉ cs) :
    ∀ c ∈ cs, Lexer.isFiller c = true := by
  induction cs with
  | nil => exact fun c hc => absurd hc List.not_mem_nil
  | cons c cs ih =>
      rw [List.mem_cons, not_or] at hsign
      obtain ⟨hne, hrest⟩ := hsign
      cases hfiller : Lexer.isFiller c with
      | false =>
          rw [scan_false_other (Ne.symm hne) hfiller] at h
          cases h
      | true =>
          rw [scan_false_filler hfiller] at h
          intro d hd
          rcases List.mem_cons.1 hd with rfl | hd
          · exact hfiller
          · exact ih h hrest d hd

/-! ## Commas -/

theorem withoutCommas_append (cs ds : List Char) :
    withoutCommas (cs ++ ds) = withoutCommas cs ++ withoutCommas ds :=
  List.filter_append cs ds

theorem withoutCommas_cons (h : c ≠ ',') (cs : List Char) :
    withoutCommas (c :: cs) = c :: withoutCommas cs :=
  List.filter_cons_of_pos (bne_iff_ne.2 h)

/-- Commas in a comment are not missed. -/
theorem scan_withoutCommas (h : scan s cs = some t) : scan s (withoutCommas cs) = some t := by
  induction cs generalizing s with
  | nil => exact h
  | cons c cs ih =>
      by_cases hcomma : c = ','
      · subst hcomma
        cases s with
        | true => exact ih h
        | false =>
            rw [scan_false_other (by decide) (by decide)] at h
            cases h
      · rw [withoutCommas_cons hcomma]
        cases s with
        | true => exact ih h
        | false =>
            by_cases hhash : c = '#'
            · subst hhash
              exact ih h
            · cases hfill : Lexer.isFiller c with
              | true =>
                  rw [scan_false_filler hfill] at h ⊢
                  exact ih h
              | false =>
                  rw [scan_false_other hhash hfill] at h
                  cases h

/-- Blanks and comments are vacant. -/
theorem IsTrivia.isVacant (h : IsTrivia cs) : IsVacant cs :=
  scan_withoutCommas h

/-- More text before it does not make a text vacant. -/
theorem NeverVacant.prepend (h : NeverVacant ds) (cs : List Char) : NeverVacant (cs ++ ds) := by
  intro s hs
  rw [withoutCommas_append] at hs
  obtain ⟨r, hr⟩ := scan_of_append _ hs
  exact h r hr

/-- A vacant text ends with a blank or a comma. -/
theorem neverVacant_concat (cs : List Char) (h : Lexer.isFiller c = false) (hcomma : c ≠ ',') :
    NeverVacant (cs ++ [c]) := by
  intro s hs
  rw [withoutCommas_append, withoutCommas_cons hcomma] at hs
  obtain ⟨r, hr⟩ := scan_of_append _ hs
  cases r with
  | true =>
      have hne : c ≠ '\n' := by
        rintro rfl
        exact absurd h (by decide)
      rw [scan_true_cons, bne_iff_ne.2 hne] at hr
      cases hr
  | false =>
      by_cases hhash : c = '#'
      · subst hhash
        exact absurd hr (by decide)
      · rw [scan_false_other hhash h] at hr
        exact absurd hr (by simp)

/-- A name given as its own value is not vacant: where it is a comment, it is one to the end. -/
theorem neverVacant_name_eq_name (name : List Char) : NeverVacant (name ++ '=' :: name) := by
  intro s h
  rw [withoutCommas_append, withoutCommas_cons (by decide)] at h
  generalize withoutCommas name = name at h
  rw [scan_append] at h
  obtain ⟨r, hfirst, hrest⟩ := Option.bind_eq_some_iff.1 h
  cases r with
  | false =>
      rw [scan_false_other (by decide) (by decide)] at hrest
      exact absurd hrest (by simp)
  | true =>
      have hsecond : scan true name = some false := hrest
      by_cases hline : '\n' ∈ name
      · exact absurd (scan_eq_of_newline hfirst hsecond hline) (by decide)
      · have hno : ∀ c ∈ name, c ≠ '\n' := by
          rintro c hc rfl
          exact hline hc
        rw [scan_true_of_no_newline hno] at hsecond
        exact absurd hsecond (by decide)

/-! ## Lines that start with a given character -/

/-- How often the first character is followed by the second in a text. -/
def countPairs (a b : Char) : List Char → Nat
  | c :: d :: cs => (if c = a ∧ d = b then 1 else 0) + countPairs a b (d :: cs)
  | _ => 0

variable {a b : Char}

theorem countPairs_cons_cons (c d : Char) (cs : List Char) :
    countPairs a b (c :: d :: cs) =
      (if c = a ∧ d = b then 1 else 0) + countPairs a b (d :: cs) := rfl

/-- Pairs within two texts are pairs of both together. -/
theorem le_countPairs_append (cs ds : List Char) :
    countPairs a b cs + countPairs a b ds ≤ countPairs a b (cs ++ ds) := by
  induction cs with
  | nil => exact Nat.le_of_eq (Nat.zero_add _)
  | cons c cs ih =>
      cases cs with
      | nil =>
          cases ds with
          | nil => exact Nat.le_refl 0
          | cons d ds =>
              show 0 + countPairs a b (d :: ds) ≤ countPairs a b (c :: d :: ds)
              rw [countPairs_cons_cons]
              omega
      | cons d cs =>
          have hih : countPairs a b (d :: cs) + countPairs a b ds ≤
            countPairs a b (d :: (cs ++ ds)) := ih
          show countPairs a b (c :: d :: cs) + countPairs a b ds ≤
            countPairs a b (c :: d :: (cs ++ ds))
          rw [countPairs_cons_cons, countPairs_cons_cons]
          omega

/-- Where the second text does not start with the second character, no pair is made. -/
theorem countPairs_append_cons {d : Char} (hd : d ≠ b) (cs ds : List Char) :
    countPairs a b (cs ++ d :: ds) = countPairs a b cs + countPairs a b (d :: ds) := by
  induction cs with
  | nil => exact (Nat.zero_add _).symm
  | cons c cs ih =>
      cases cs with
      | nil =>
          show countPairs a b (c :: d :: ds) = 0 + countPairs a b (d :: ds)
          rw [countPairs_cons_cons, if_neg fun h => hd h.2]
      | cons e cs =>
          have hih : countPairs a b (e :: (cs ++ d :: ds)) =
            countPairs a b (e :: cs) + countPairs a b (d :: ds) := ih
          show countPairs a b (c :: e :: (cs ++ d :: ds)) = _
          rw [countPairs_cons_cons, countPairs_cons_cons, hih, Nat.add_assoc]

/-- No line of blanks, comments and commas, apart from the one it begins in, starts with anything
else. -/
theorem countPairs_of_scan {d : Char} (hhash : d ≠ '#') (hcomma : d ≠ ',')
    (hd : Lexer.isFiller d = false) (h : scan s (withoutCommas cs) = some t) :
    countPairs '\n' d cs = 0 := by
  induction cs generalizing s with
  | nil => rfl
  | cons c cs ih =>
      have happend : withoutCommas (c :: cs) = withoutCommas [c] ++ withoutCommas cs :=
        withoutCommas_append [c] cs
      obtain ⟨r, hr⟩ := scan_of_append _ (happend ▸ h)
      have hrest := ih hr
      cases cs with
      | nil => rfl
      | cons e cs =>
          rw [countPairs_cons_cons, hrest]
          refine if_neg ?_
          rintro ⟨rfl, rfl⟩
          -- the line end leaves any comment, and what follows is no blank, comment or comma
          rw [withoutCommas_cons (by decide), withoutCommas_cons hcomma] at h
          have hnext : scan s ('\n' :: e :: withoutCommas cs) =
              scan false (e :: withoutCommas cs) := by
            cases s with
            | true => rfl
            | false => exact scan_false_filler (by decide)
          rw [hnext, scan_false_other hhash hd] at h
          cases h

end CallFill.Source
