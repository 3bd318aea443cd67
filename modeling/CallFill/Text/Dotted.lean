import CallFill.Text.Blank

/-!
# Dotted names

A dotted name is a text read as segments between its dots. A text without a dot is one segment, and
the empty text is one empty segment, so there always is a first and a last segment.
-/

namespace CallFill.Dotted

/-- The segments of a name, as characters. -/
def segmentChars (name : String) : List (List Char) :=
  Text.pieces (· == '.') name.toList

/-- The segments between the dots of a name. -/
def segments (name : String) : List String :=
  (segmentChars name).map String.ofList

/-- The name made of the segments. -/
def ofSegments (parts : List String) : String :=
  ".".intercalate parts

/-- What stands before the first dot, or the whole name. -/
def first (name : String) : String :=
  String.ofList (name.toList.takeWhile (· != '.'))

/-- What stands after the last dot, or the whole name. -/
def last (name : String) : String :=
  String.ofList (name.toList.reverse.takeWhile (· != '.')).reverse

/-- What stands before and after the last dot; none without a dot. -/
def splitLast? (name : String) : Option (String × String) :=
  match name.toList.reverse.dropWhile (· != '.') with
  | [] => none
  | _ :: before => some (String.ofList before.reverse, last name)

/-- Splits a qualified name into its module and its own name: the module is empty without a dot. -/
def splitQualified (name : String) : String × String :=
  (splitLast? name).getD ("", name)

/-- One name below another: `outer.inner`. -/
def below (outer inner : String) : String :=
  outer ++ "." ++ inner

/-- A name in a module; in the unnamed module, the name itself. -/
def qualify (module name : String) : String :=
  if module = "" then name else below module name

/-- A segment as it stands between dots: it is not empty, and neither a dot nor a blank at its ends
is part of it. -/
structure IsSegment (s : String) : Prop where
  ne_empty : s ≠ ""
  plain : '.' ∉ s.toList
  trimmed_eq : Text.trimmed s = s

variable {parts : List String} {s : String}

/-- The segments of a name are those that it was made of. -/
theorem segments_ofSegments (hne : parts ≠ []) (hplain : ∀ s ∈ parts, '.' ∉ s.toList) :
    segments (ofSegments parts) = parts := by
  have hparts : ∀ part ∈ parts.map String.toList, '.' ∉ part := by
    intro part hpart
    obtain ⟨s, hs, rfl⟩ := List.mem_map.1 hpart
    exact hplain s hs
  have hpieces := Text.pieces_intercalate (mt List.map_eq_nil_iff.1 hne) hparts
  rw [segments, segmentChars, ofSegments, String.toList_intercalate]
  show (Text.pieces (· == '.') (['.'].intercalate (parts.map String.toList))).map _ = parts
  rw [hpieces, List.map_map]
  refine (List.map_congr_left fun s _ => ?_).trans (List.map_id parts)
  exact String.ofList_toList

/-- A name is made of its segments. -/
theorem ofSegments_segments (name : String) : ofSegments (segments name) = name := by
  rw [← String.toList_inj, ofSegments, String.toList_intercalate, segments, List.map_map,
    segmentChars]
  have hchars : ∀ cs : List Char, (String.toList ∘ String.ofList) cs = cs :=
    fun cs => String.toList_ofList
  rw [List.map_congr_left fun cs _ => hchars cs, List.map_id']
  exact Text.intercalate_pieces '.' name.toList

/-- Even the empty name has a segment, an empty one. -/
theorem segments_ne_nil (name : String) : segments name ≠ [] :=
  mt List.map_eq_nil_iff.1 (Text.pieces_ne_nil _ _)

/-- A name below another has the segments of both. -/
theorem segments_below (outer inner : String) :
    segments (below outer inner) = segments outer ++ segments inner := by
  have hchars : (below outer inner).toList = outer.toList ++ '.' :: inner.toList := by simp [below]
  rw [segments, segmentChars, hchars, Text.pieces_append_cons _ (by decide), List.map_append]
  rfl

/-- The first segment of a name is the one that the others follow. -/
theorem exists_segments_eq_cons (name : String) :
    ∃ further, segments name = first name :: further := by
  obtain ⟨further, hpieces⟩ := Text.exists_pieces_eq_cons '.' name.toList
  refine ⟨further.map String.ofList, ?_⟩
  rw [segments, segmentChars, hpieces]
  rfl

theorem ne_empty_of_first {name : String} (h : first name ≠ "") : name ≠ "" := by
  rintro rfl
  exact h rfl

/-- Before a first segment that is not empty there is no dot. -/
theorem takeWhile_of_first {name : String} (h : first name ≠ "") :
    name.toList.takeWhile (· == '.') = [] := by
  rw [first] at h
  cases hchars : name.toList with
  | nil => rfl
  | cons c cs =>
      -- a leading dot would leave an empty first segment
      refine List.takeWhile_cons_of_neg fun hdot => h ?_
      rw [hchars, List.takeWhile_cons_of_neg (by simpa using hdot)]

/-- What stands below a name does not change its first segment. -/
theorem first_below (outer inner : String) : first (below outer inner) = first outer := by
  obtain ⟨further, houter⟩ := exists_segments_eq_cons outer
  obtain ⟨further', hbelow⟩ := exists_segments_eq_cons (below outer inner)
  rw [segments_below, houter, List.cons_append] at hbelow
  exact (List.cons.inj hbelow).1.symm

theorem ofSegments_singleton (s : String) : ofSegments [s] = s := by
  rw [← String.toList_inj, ofSegments, String.toList_intercalate, List.map_cons, List.map_nil,
    List.intercalate_singleton]

/-- A segment more goes before the dot. -/
theorem ofSegments_cons (s : String) (hne : parts ≠ []) :
    ofSegments (s :: parts) = below s (ofSegments parts) := by
  obtain ⟨next, rest, rfl⟩ := List.exists_cons_of_ne_nil hne
  rw [← String.toList_inj, ofSegments, below, ofSegments]
  simp only [String.toList_intercalate, String.toList_append, List.map_cons,
    List.intercalate_cons_cons]

/-- One more at the end goes behind a dot. -/
theorem ofSegments_concat (hne : parts ≠ []) (s : String) :
    ofSegments (parts ++ [s]) = below (ofSegments parts) s := by
  induction parts with
  | nil => exact absurd rfl hne
  | cons first rest ih =>
      cases rest with
      | nil => exact ofSegments_cons first (List.cons_ne_nil s [])
      | cons next rest =>
          rw [List.cons_append, ofSegments_cons first (by simp), ih (List.cons_ne_nil next rest),
            ofSegments_cons first (List.cons_ne_nil next rest)]
          simp only [below, String.append_assoc]

/-- A name begins with the segment that it was made of first. -/
theorem first_ofSegments (hplain : '.' ∉ s.toList) (parts : List String) :
    first (ofSegments (s :: parts)) = s := by
  have hkept : ∀ c ∈ s.toList, (c != '.') = true := by
    intro c hc
    refine bne_iff_ne.2 ?_
    rintro rfl
    exact hplain hc
  have hstops : ((ofSegments (s :: parts)).toList.takeWhile (· != '.')) = s.toList := by
    cases parts with
    | nil =>
        rw [ofSegments_singleton]
        have hall : (s.toList ++ []).takeWhile (· != '.') = s.toList ++ [] :=
          List.takeWhile_append_of_pos hkept
        rwa [List.append_nil] at hall
    | cons next rest =>
        rw [ofSegments_cons s (List.cons_ne_nil next rest), below, String.append_assoc,
          String.toList_append, List.takeWhile_append_of_pos hkept, String.toList_append]
        exact List.append_nil s.toList
  rw [first, hstops]
  exact String.ofList_toList

theorem first_ofSegments_ne_empty (hne : s ≠ "") (hplain : '.' ∉ s.toList) (parts : List String) :
    first (ofSegments (s :: parts)) ≠ "" := by
  rw [first_ofSegments hplain]
  exact hne

/-- A name that is made of segments is not empty. -/
theorem ofSegments_ne_empty (hne : parts ≠ []) (hsegments : ∀ s ∈ parts, IsSegment s) :
    ofSegments parts ≠ "" := by
  obtain ⟨s, rest, rfl⟩ := List.exists_cons_of_ne_nil hne
  have hs := hsegments s List.mem_cons_self
  exact ne_empty_of_first (first_ofSegments_ne_empty hs.ne_empty hs.plain rest)

/-- To qualify a name by a module is to add it to the segments of the module. -/
theorem qualify_ofSegments (hne : parts ≠ []) (hsegments : ∀ s ∈ parts, IsSegment s) (s : String) :
    qualify (ofSegments parts) s = ofSegments (parts ++ [s]) := by
  rw [qualify, if_neg (ofSegments_ne_empty hne hsegments), ofSegments_concat hne]

/-- Names one below another, from a name down. -/
theorem foldl_qualify {outer : String} (houter : outer ≠ "") (hne : parts ≠ []) :
    parts.foldl qualify outer = below outer (ofSegments parts) := by
  induction parts generalizing outer with
  | nil => exact absurd rfl hne
  | cons s parts ih =>
      rw [List.foldl_cons, qualify, if_neg houter]
      cases parts with
      | nil => rw [List.foldl_nil, ofSegments_singleton]
      | cons next rest =>
          have hlonger : below outer s ≠ "" := by
            intro hempty
            have hchars := congrArg String.toList hempty
            simp [below] at hchars
          rw [ih hlonger (List.cons_ne_nil next rest),
            ofSegments_cons s (List.cons_ne_nil next rest)]
          simp only [below, String.append_assoc]

/-- Within one module, different names have different qualified names. -/
theorem qualify_injective (module : String) : Function.Injective (qualify module) := by
  intro name other h
  rw [qualify, qualify] at h
  split at h
  · exact h
  · have htexts := congrArg String.toList h
    simp only [below, String.toList_append] at htexts
    exact String.toList_inj.1 (List.append_cancel_left htexts)

theorem reverse_below (outer inner : String) :
    (below outer inner).toList.reverse = inner.toList.reverse ++ '.' :: outer.toList.reverse := by
  simp [below]

/-- The qualified name of a name in a module is split into the two. -/
theorem splitQualified_qualify {module name : String} (hmodule : module ≠ "")
    (hname : '.' ∉ name.toList) : splitQualified (qualify module name) = (module, name) := by
  have hkept : ∀ c ∈ name.toList.reverse, (c != '.') = true := by
    intro c hc
    refine bne_iff_ne.2 ?_
    rintro rfl
    exact hname (List.mem_reverse.1 hc)
  have hlast : last (below module name) = name := by
    rw [last, reverse_below, List.takeWhile_append_of_pos hkept,
      List.takeWhile_cons_of_neg (by decide), List.append_nil, List.reverse_reverse]
    exact String.ofList_toList
  rw [qualify, if_neg hmodule, splitQualified, splitLast?, reverse_below,
    List.dropWhile_append_of_pos hkept, List.dropWhile_cons_of_neg (by decide), hlast]
  simp only [List.reverse_reverse, Option.getD_some, String.ofList_toList]

end CallFill.Dotted
