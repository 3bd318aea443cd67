import CallFill.Disk.Basic
import Mathlib.Data.List.Basic

/-!
# Reading and writing files below a directory

A path of names, without dots for directories, is the one spelling of the place of a file. At such
paths a disk is a store: a write that succeeds leaves its text at its path (`Disk.read?_write`), and
no write changes what is read at another such path (`Disk.read?_write_of_ne`).

The source files below a directory are listed by paths with slashes throughout. On a disk that a
file system can have, reading at a listed path gives the listed text, as long as no name has a
backslash (`Disk.read?_of_mem_sources`). Where a file system takes backslashes in names, a file can
be listed under the path of another one (`Disk.sources_backslashed`).
-/

namespace CallFill

open Text

/-! ## Paths of names -/

namespace FilePath

variable {names : List String} {path : String}

theorem mem_intercalate {sep : List Char} {parts : List (List Char)} {c : Char}
    (h : c ∈ sep.intercalate parts) : c ∈ sep ∨ ∃ part ∈ parts, c ∈ part := by
  induction parts with
  | nil => exact absurd h List.not_mem_nil
  | cons part parts ih =>
      cases parts with
      | nil =>
          rw [List.intercalate_singleton] at h
          exact Or.inr ⟨part, List.mem_cons_self, h⟩
      | cons next parts =>
          rw [List.intercalate_cons_cons, List.mem_append, List.mem_append] at h
          rcases h with (hpart | hsep) | hrest
          · exact Or.inr ⟨part, List.mem_cons_self, hpart⟩
          · exact Or.inl hsep
          · refine (ih hrest).imp_right ?_
            rintro ⟨other, hother, hc⟩
            exact ⟨other, List.mem_cons_of_mem _ hother, hc⟩

/-- The segments of a path are the names that it was made of. -/
theorem split_intercalate (hne : names ≠ []) (hplain : ∀ name ∈ names, '/' ∉ name.toList) :
    split ("/".intercalate names) = names := by
  have hparts : ∀ part ∈ names.map String.toList, '/' ∉ part := by
    intro part hpart
    obtain ⟨name, hname, rfl⟩ := List.mem_map.1 hpart
    exact hplain name hname
  have hpieces := pieces_intercalate (mt List.map_eq_nil_iff.1 hne) hparts
  rw [split, String.toList_intercalate]
  show (pieces (· == '/') (['/'].intercalate (names.map String.toList))).map String.ofList = names
  rw [hpieces, List.map_map]
  refine (List.map_congr_left fun name _ => ?_).trans (List.map_id names)
  exact String.ofList_toList

/-- The segments of a path spell it. -/
theorem intercalate_split (path : String) : "/".intercalate (split path) = path := by
  have hpieces : ∀ cs : List Char, ['/'].intercalate (pieces (· == '/') cs) = cs := by
    intro cs
    induction cs with
    | nil => rfl
    | cons c cs ih =>
        rw [pieces]
        obtain ⟨first, rest, hrest⟩ := List.exists_cons_of_ne_nil (pieces_ne_nil (· == '/') cs)
        rw [hrest] at ih ⊢
        by_cases hc : (c == '/') = true
        · rw [if_pos hc, List.intercalate_cons_cons, ih, LawfulBEq.eq_of_beq hc]
          rfl
        · rw [if_neg hc]
          dsimp only
          rw [← ih]
          cases rest with
          | nil => rw [List.intercalate_singleton, List.intercalate_singleton]
          | cons next rest =>
              rw [List.intercalate_cons_cons, List.intercalate_cons_cons, List.append_assoc,
                List.append_assoc, List.cons_append]
  rw [← String.toList_inj, String.toList_intercalate, split, List.map_map]
  have hsame : String.toList ∘ String.ofList = id := funext fun _ => String.toList_ofList
  rw [hsame, List.map_id]
  exact hpieces path.toList

theorem split_injective : Function.Injective split := by
  intro path other h
  rw [← intercalate_split path, h, intercalate_split other]

theorem slashed_of_not_mem (h : '\\' ∉ path.toList) : slashed path = path := by
  have hkept : path.toList.map (fun c => if c == '\\' then '/' else c) = path.toList := by
    refine (List.map_congr_left fun c hc => ?_).trans (List.map_id path.toList)
    have hne : (c == '\\') = false := by
      refine beq_eq_false_iff_ne.2 ?_
      rintro rfl
      exact h hc
    rw [hne]
    rfl
  rw [slashed, hkept, String.ofList_toList]

end FilePath

/-! ## Places of files -/

namespace Disk

variable {d : Disk} {place above : List String} {name path text : String}

/-- A name that an entry of a directory can have. -/
def IsEntryName (name : String) : Prop :=
  FilePath.isIdle name = false ∧ name ≠ ".." ∧ isName name = true ∧ '/' ∉ name.toList

/-- A disk as a file system has it: files stand under names, and no file is a directory. -/
structure WellFormed (d : Disk) : Prop where
  ne_nil : ∀ place ∈ KeyedList.keys d.files, place ≠ []
  isEntryName : ∀ place ∈ KeyedList.keys d.files, ∀ name ∈ place, IsEntryName name
  apart : ∀ place ∈ KeyedList.keys d.files, ∀ other ∈ KeyedList.keys d.files,
    place <+: other → place = other

theorem isDirectory_iff : d.isDirectory place = true ↔
    (∀ name ∈ place, name = "..") ∨
      ∃ other ∈ KeyedList.keys d.files, place <+: other ∧ place.length < other.length := by
  rw [isDirectory, Bool.or_eq_true, List.all_eq_true, List.any_eq_true]
  refine or_congr (forall₂_congr fun name _ => decide_eq_true_iff) ?_
  constructor
  · rintro ⟨⟨other, content⟩, hmem, hbelow⟩
    rw [Bool.and_eq_true, List.isPrefixOf_iff_prefix, decide_eq_true_iff] at hbelow
    exact ⟨other, List.mem_map.2 ⟨_, hmem, rfl⟩, hbelow⟩
  · rintro ⟨other, hmem, hwithin, hlt⟩
    obtain ⟨⟨_, content⟩, hfile, rfl⟩ := List.mem_map.1 hmem
    refine ⟨_, hfile, ?_⟩
    rw [Bool.and_eq_true, List.isPrefixOf_iff_prefix, decide_eq_true_iff]
    exact ⟨hwithin, hlt⟩

/-- The path is spelled as names that entries can have. -/
def IsPath (path : String) : Prop :=
  ∀ name ∈ FilePath.split path, IsEntryName name

theorem IsPath.place?_eq (h : IsPath path) (d : Disk) :
    d.place? path = d.placeFrom? [] (FilePath.split path) := by
  rw [place?, if_neg]
  intro hhead
  -- a path that starts with a slash has an empty segment
  obtain ⟨rest, hrest⟩ : ∃ rest, path.toList = '/' :: rest := by
    cases hchars : path.toList with
    | nil =>
        rw [hchars] at hhead
        exact nomatch hhead
    | cons c rest =>
        rw [hchars] at hhead
        obtain rfl : c = '/' := Option.some.inj hhead
        exact ⟨rest, rfl⟩
  have hempty : "" ∈ FilePath.split path := by
    rw [FilePath.split, hrest, pieces, if_pos (beq_self_eq_true '/'), List.map_cons]
    exact List.mem_cons_self
  exact absurd (h "" hempty).1 (by decide)

/-- One name at a time: the last one must not be that of a directory, the others must. -/
theorem placeFrom?_cons (hname : IsEntryName name) (above rest : List String) :
    d.placeFrom? above (name :: rest) =
      if rest = [] then
        if d.isDirectory (above ++ [name]) then none else some (above ++ [name])
      else if d.isDirectory (above ++ [name]) then d.placeFrom? (above ++ [name]) rest
      else none := by
  obtain ⟨hidle, hup, hvalid, _⟩ := hname
  cases rest with
  | nil =>
      rw [if_pos rfl, placeFrom?, hidle, hvalid, decide_eq_false hup]
      rfl
  | cons next rest => simp only [placeFrom?, hidle, hup, reduceCtorEq, if_false, Bool.false_eq_true]

/-- Names that entries can have lead nowhere else than they say, through directories. -/
theorem eq_of_placeFrom? {below : List String} (hbelow : ∀ name ∈ below, IsEntryName name)
    (h : d.placeFrom? above below = some place) :
    place = above ++ below ∧ d.isDirectory place = false ∧
      ∀ front back, below = front ++ back → front ≠ [] → back ≠ [] →
        d.isDirectory (above ++ front) = true := by
  induction below generalizing above with
  | nil => exact nomatch h
  | cons name rest ih =>
      rw [placeFrom?_cons (hbelow name List.mem_cons_self)] at h
      -- the last name leads to the place itself, and every one before it to a directory that the
      -- rest is found in
      by_cases hrest : rest = []
      · rw [if_pos hrest] at h
        split at h
        · exact nomatch h
        · next hfile =>
            obtain rfl := Option.some.inj h
            refine ⟨by rw [hrest], Bool.eq_false_iff.2 hfile, ?_⟩
            rintro (_ | ⟨c, front⟩) back heq hfront hback
            · exact absurd rfl hfront
            · rw [hrest] at heq
              have hnil := List.append_eq_nil_iff.1 (List.cons.inj heq).2.symm
              exact absurd hnil.2 hback
      · rw [if_neg hrest] at h
        split at h
        · next hdirectory =>
            obtain ⟨hplace, hfile, habove⟩ :=
              ih (fun other hother => hbelow other (List.mem_cons_of_mem _ hother)) h
            rw [List.append_assoc, List.singleton_append] at hplace
            refine ⟨hplace, hfile, ?_⟩
            rintro (_ | ⟨c, front⟩) back heq hfront hback
            · exact absurd rfl hfront
            · obtain ⟨rfl, htail⟩ := List.cons.inj heq
              by_cases hempty : front = []
              · rw [hempty]
                exact hdirectory
              · have hdeeper := habove front back htail hempty hback
                rw [List.append_assoc, List.singleton_append] at hdeeper
                exact hdeeper
        · exact nomatch h

/-- The names of a file lead to its place. -/
theorem WellFormed.placeFrom?_eq (hd : d.WellFormed) {below : List String} (hne : below ≠ [])
    (hmem : above ++ below ∈ KeyedList.keys d.files) :
    d.placeFrom? above below = some (above ++ below) := by
  induction below generalizing above with
  | nil => exact absurd rfl hne
  | cons name rest ih =>
      have hname := hd.isEntryName _ hmem name (List.mem_append_right _ List.mem_cons_self)
      rw [placeFrom?_cons hname]
      by_cases hrest : rest = []
      · subst hrest
        have hfile : d.isDirectory (above ++ [name]) = false := by
          refine Bool.eq_false_iff.2 (mt isDirectory_iff.1 ?_)
          rintro (hall | ⟨other, hother, hwithin, hlt⟩)
          · exact hname.2.1 (hall name (List.mem_append_right _ List.mem_cons_self))
          · rw [hd.apart _ hmem other hother hwithin] at hlt
            exact absurd hlt (Nat.lt_irrefl _)
        rw [if_pos rfl, hfile]
        rfl
      · have happend : above ++ name :: rest = above ++ [name] ++ rest := by
          rw [List.append_assoc, List.singleton_append]
        rw [happend] at hmem ⊢
        -- what has a file below it is a directory
        have hdirectory : d.isDirectory (above ++ [name]) = true := by
          refine isDirectory_iff.2 (Or.inr ⟨_, hmem, List.prefix_append _ _, ?_⟩)
          have hpos := List.length_pos_iff.2 hrest
          have hlength : (above ++ [name] ++ rest).length =
              (above ++ [name]).length + rest.length := List.length_append
          omega
        rw [if_neg hrest, if_pos hdirectory, ih hrest hmem]

/-! ## Writing -/

theorem textOf?_bytesOf (text : String) : textOf? (bytesOf text) = some text := by
  have hbytes : (⟨(bytesOf text).toArray⟩ : ByteArray) = text.toByteArray := by
    rw [← String.utf8Encode_toList]
    exact ByteArray.ext List.data_toByteArray.symm
  rw [textOf?, hbytes, String.fromUTF8?, dif_pos text.isValidUTF8]
  rfl

/-- A file that is written where a path leads makes no directory. -/
theorem isDirectory_put (hpath : IsPath path) (hplace : d.place? path = some place)
    (content : List UInt8) (other : List String) :
    isDirectory { files := KeyedList.put d.files place content } other = d.isDirectory other := by
  rw [hpath.place?_eq] at hplace
  obtain ⟨hnames, _, hdirectories⟩ := eq_of_placeFrom? hpath hplace
  rw [List.nil_append] at hnames
  rw [Bool.eq_iff_iff, isDirectory_iff, isDirectory_iff]
  constructor
  · rintro (hall | ⟨file, hfile, hwithin, hlt⟩)
    · exact Or.inl hall
    · rcases KeyedList.mem_keys_put.1 hfile with hold | rfl
      · exact Or.inr ⟨file, hold, hwithin, hlt⟩
      · obtain ⟨back, hback⟩ := hwithin
        by_cases hempty : other = []
        · rw [hempty]
          exact Or.inl fun _ hname => absurd hname List.not_mem_nil
        · refine isDirectory_iff.1 (hdirectories other back (hnames ▸ hback.symm) hempty ?_)
          rintro rfl
          rw [← hback, List.append_nil] at hlt
          exact absurd hlt (Nat.lt_irrefl _)
  · rintro (hall | ⟨file, hfile, hbelow⟩)
    · exact Or.inl hall
    · exact Or.inr ⟨file, KeyedList.mem_keys_put.2 (Or.inl hfile), hbelow⟩

/-- Names lead to the same places where the directories are the same. -/
theorem placeFrom?_congr {d' : Disk} (h : ∀ other, d'.isDirectory other = d.isDirectory other)
    {below : List String} (hbelow : ∀ name ∈ below, IsEntryName name) (above : List String) :
    d'.placeFrom? above below = d.placeFrom? above below := by
  induction below generalizing above with
  | nil => rfl
  | cons name rest ih =>
      have hname := hbelow name List.mem_cons_self
      rw [placeFrom?_cons hname, placeFrom?_cons hname, h,
        ih fun other hother => hbelow other (List.mem_cons_of_mem _ hother)]

/-- A write that succeeds has a place for its text, and all paths lead where they led before. -/
theorem write_eq_ok (hpath : IsPath path) (hok : (write path text d).1 = .ok ()) :
    ∃ place, d.place? path = some place ∧
      (write path text d).2 = { files := KeyedList.put d.files place (bytesOf text) } ∧
      ∀ other, IsPath other → (write path text d).2.place? other = d.place? other := by
  rw [write] at hok ⊢
  cases hplace : d.place? path with
  | none =>
      rw [hplace] at hok
      exact nomatch hok
  | some place =>
      refine ⟨place, rfl, rfl, ?_⟩
      intro other hother
      rw [hother.place?_eq, hother.place?_eq]
      exact placeFrom?_congr (isDirectory_put hpath hplace (bytesOf text)) hother []

theorem write_eq_error (hfail : (write path text d).1 ≠ .ok ()) : (write path text d).2 = d := by
  rw [write] at hfail ⊢
  cases hplace : d.place? path with
  | none => rfl
  | some place =>
      rw [hplace] at hfail
      exact absurd rfl hfail

/-- A write that succeeds leaves its text at its path. -/
theorem read?_write (hpath : IsPath path) (hok : (write path text d).1 = .ok ()) :
    (write path text d).2.read? path = some text := by
  obtain ⟨place, hplace, hdisk, hkept⟩ := write_eq_ok hpath hok
  rw [read?, hkept path hpath, hplace, hdisk, Option.bind_some, KeyedList.get?_put, if_pos rfl]
  exact textOf?_bytesOf text

/-- A write does not touch what is at another path of names. -/
theorem read?_write_of_ne {other : String} (hpath : IsPath path) (hother : IsPath other)
    (hne : other ≠ path) : (write path text d).2.read? other = d.read? other := by
  by_cases hok : (write path text d).1 = .ok ()
  · obtain ⟨place, hplace, hdisk, hkept⟩ := write_eq_ok hpath hok
    rw [read?, hkept other hother, hdisk, read?]
    cases hfound : d.place? other with
    | none => rfl
    | some found =>
        have hapart : place ≠ found := by
          rintro rfl
          rw [hpath.place?_eq] at hplace
          rw [hother.place?_eq] at hfound
          have hnames := (eq_of_placeFrom? hpath hplace).1
          rw [(eq_of_placeFrom? hother hfound).1, List.nil_append, List.nil_append] at hnames
          exact hne (FilePath.split_injective hnames)
        rw [Option.bind_some, Option.bind_some, KeyedList.get?_put, if_neg hapart]
  · rw [write_eq_error hok]

/-! ## Listing -/

/-- A file is found at its path if its names have no backslash. -/
theorem WellFormed.place?_pathOf (hd : d.WellFormed) (hmem : place ∈ KeyedList.keys d.files)
    (hplain : ∀ name ∈ place, '\\' ∉ name.toList) :
    IsPath (pathOf place) ∧ d.place? (pathOf place) = some place := by
  have hpath : pathOf place = "/".intercalate place := by
    refine FilePath.slashed_of_not_mem ?_
    rw [String.toList_intercalate]
    intro hback
    rcases FilePath.mem_intercalate hback with hsep | ⟨part, hpart, hc⟩
    · exact absurd hsep (by decide)
    · obtain ⟨name, hname, rfl⟩ := List.mem_map.1 hpart
      exact hplain name hname hc
  have hne := hd.ne_nil place hmem
  have hsplit : FilePath.split (pathOf place) = place := by
    rw [hpath]
    exact FilePath.split_intercalate hne
      fun name hname => (hd.isEntryName place hmem name hname).2.2.2
  have hispath : IsPath (pathOf place) := by
    rw [IsPath, hsplit]
    exact hd.isEntryName place hmem
  refine ⟨hispath, ?_⟩
  rw [hispath.place?_eq, hsplit]
  exact hd.placeFrom?_eq hne hmem

/-- Reading at a listed path gives the listed text, where no name has a backslash. -/
theorem read?_of_mem_sources (hd : d.WellFormed)
    (hplain : ∀ place ∈ KeyedList.keys d.files, ∀ name ∈ place, '\\' ∉ name.toList)
    (h : (path, text) ∈ d.sources) : IsPath path ∧ d.read? path = some text := by
  obtain ⟨place, hplace, hread⟩ := List.mem_filterMap.1 h
  obtain ⟨text', htext, heq⟩ := Option.map_eq_some_iff.1 hread
  obtain ⟨rfl, rfl⟩ := Prod.mk.inj heq
  have hmem : place ∈ KeyedList.keys d.files :=
    (List.mem_filter.1 (List.mem_mergeSort.1 hplace)).1
  obtain ⟨hpath, hfound⟩ := hd.place?_pathOf hmem (hplain place hmem)
  rw [read?, hfound]
  exact ⟨hpath, htext⟩

/-- A file in a directory, and one beside the directory whose name is spelled with a backslash. -/
def backslashed : Disk where
  files := [(["a", "b.py"], bytesOf "x = 1\n"), (["a\\b.py"], bytesOf "y = 2\n")]

/-- Both files are listed under one path, and the workspace has the text of the wrong one. -/
theorem sources_backslashed :
    backslashed.sources = [("a/b.py", "x = 1\n"), ("a/b.py", "y = 2\n")] ∧
      backslashed.read? "a/b.py" = some "x = 1\n" ∧
      backslashed.read? "a\\b.py" = some "y = 2\n" := by
  have hsorted : (((backslashed.files.map (·.1)).filter fun place =>
      FilePath.isSource ("/".intercalate place) && backslashed.isListed place).Pairwise
        fun a b => precedes a b = true) := by
    decide +kernel
  refine ⟨?_, by decide +kernel, by decide +kernel⟩
  rw [sources, List.mergeSort_of_pairwise hsorted]
  decide +kernel

end Disk

end CallFill
