import CallFill.Proofs.Union.Leaves
import Mathlib.Data.List.Permutation

/-!
# Ranking

Of the leaves of a union, ranking keeps those from the best bucket, each once, ordered by kind and
within a kind by rendered name (`mem_rankFlat_iff`, `pairwise_rankFlat`). The order of the leaves
has no part in this. So where names tell the leaves apart, the ranking, the signature and the
resolution of a union depend on the set of its leaves alone, however they are ordered, repeated and
nested (`rank_characterized`).
-/

namespace CallFill

namespace Union

variable {h : Host} {c : Config} {members others flat xs ys : List TypeId} {t a b d : TypeId}

/-! ## The order of preference -/

/-- One type is preferred to another: by its kind, or within one kind by its rendered name. -/
def Before (h : Host) (c : Config) (a b : TypeId) : Prop :=
  (kindOf h c a).rank < (kindOf h c b).rank ∨
    kindOf h c a = kindOf h c b ∧ h.displayName a < h.displayName b

/-- Sorting compares handles only where kind and name are the same. -/
theorem precedes_iff :
    precedes h c a b = true ↔ Before h c a b ∨
      kindOf h c a = kindOf h c b ∧ h.displayName a = h.displayName b ∧ a.index ≤ b.index := by
  have hkind : (kindOf h c a).rank = (kindOf h c b).rank ↔ kindOf h c a = kindOf h c b :=
    ⟨MemberKind.rank_injective, congrArg MemberKind.rank⟩
  simp only [precedes, Before, Bool.or_eq_true, Bool.and_eq_true, decide_eq_true_eq, beq_iff_eq,
    hkind, and_or_left, or_assoc]

/-- No two types are preferred to each other. -/
theorem Before.asymm (hab : Before h c a b) : ¬Before h c b a := by
  intro hba
  rcases hab with hab | ⟨hkind, hab⟩
  · rcases hba with hba | ⟨hkind, -⟩
    · exact Nat.lt_asymm hab hba
    · exact Nat.ne_of_lt hab (congrArg MemberKind.rank hkind.symm)
  · rcases hba with hba | ⟨-, hba⟩
    · exact Nat.ne_of_lt hba (congrArg MemberKind.rank hkind.symm)
    · exact String.lt_asymm hab hba

/-- Within one kind, preference is by name, so the names differ. -/
theorem Before.ne_name_of_kind (hab : Before h c a b) (hkind : kindOf h c a = kindOf h c b) :
    h.displayName a ≠ h.displayName b := by
  intro hname
  rcases hab with hab | ⟨-, hab⟩
  · exact Nat.ne_of_lt hab (congrArg MemberKind.rank hkind)
  · exact String.lt_irrefl _ (hname ▸ hab)

/-- The order of sorting is transitive: kinds are compared first, names within a kind, and handles
last. -/
theorem precedes_trans (hab : precedes h c a b = true) (hbd : precedes h c b d = true) :
    precedes h c a d = true := by
  rw [precedes_iff] at hab hbd ⊢
  rcases hab with (hab | ⟨hab, hab'⟩) | ⟨hab, hab', habi⟩
  · left; left
    rcases hbd with (hbd | ⟨hbd, -⟩) | ⟨hbd, -⟩
    · exact Nat.lt_trans hab hbd
    · exact hbd ▸ hab
    · exact hbd ▸ hab
  · left
    rcases hbd with (hbd | ⟨hbd, hbd'⟩) | ⟨hbd, hbd', -⟩
    · exact .inl (hab ▸ hbd)
    · exact .inr ⟨hab.trans hbd, String.lt_trans hab' hbd'⟩
    · exact .inr ⟨hab.trans hbd, hbd' ▸ hab'⟩
  · rcases hbd with (hbd | ⟨hbd, hbd'⟩) | ⟨hbd, hbd', hbdi⟩
    · exact .inl (.inl (hab ▸ hbd))
    · exact .inl (.inr ⟨hab.trans hbd, hab' ▸ hbd'⟩)
    · exact .inr ⟨hab.trans hbd, hab'.trans hbd', Nat.le_trans habi hbdi⟩

theorem precedes_total (a b : TypeId) : (precedes h c a b || precedes h c b a) = true := by
  rw [Bool.or_eq_true, precedes_iff, precedes_iff]
  rcases Nat.lt_trichotomy (kindOf h c a).rank (kindOf h c b).rank with hlt | heq | hgt
  · exact .inl (.inl (.inl hlt))
  · have hkind := MemberKind.rank_injective heq
    by_cases hab : h.displayName a < h.displayName b
    · exact .inl (.inl (.inr ⟨hkind, hab⟩))
    · by_cases hba : h.displayName b < h.displayName a
      · exact .inr (.inl (.inr ⟨hkind.symm, hba⟩))
      · have hname := String.le_antisymm (String.not_lt.1 hba) (String.not_lt.1 hab)
        rcases Nat.le_total a.index b.index with hle | hle
        · exact .inl (.inr ⟨hkind, hname, hle⟩)
        · exact .inr (.inr ⟨hkind.symm, hname.symm, hle⟩)
  · exact .inr (.inl (.inl hgt))

/-- Types that come before each other are one type, for handles tell all types apart. -/
theorem eq_of_precedes (hab : precedes h c a b = true) (hba : precedes h c b a = true) : a = b := by
  rw [precedes_iff] at hab hba
  rcases hab with hab | ⟨hkind, hname, hle⟩
  · rcases hba with hba | ⟨hkind, hname, -⟩
    · exact absurd hba hab.asymm
    · exact absurd hname.symm (hab.ne_name_of_kind hkind.symm)
  · rcases hba with hba | ⟨-, -, hge⟩
    · exact absurd hname.symm (hba.ne_name_of_kind hkind.symm)
    · exact congrArg TypeId.mk (Nat.le_antisymm hle hge)

/-! ## The best bucket -/

/-- The type is one of the given ones, and no other of them has a better bucket. -/
structure IsBest (h : Host) (flat : List TypeId) (t : TypeId) : Prop where
  mem : t ∈ flat
  best : ∃ bucket, bucketOf h t = some bucket ∧
    ∀ u ∈ flat, ∀ other, bucketOf h u = some other → bucket.rank ≤ other.rank

/-- The best bucket is one that a leaf is in, and no leaf is in a better one. -/
theorem bestBucket?_eq_some_iff {best : Nat} :
    bestBucket? h flat = some best ↔
      (∃ t ∈ flat, (bucketOf h t).map Bucket.rank = some best) ∧
      ∀ u ∈ flat, ∀ other, bucketOf h u = some other → best ≤ other.rank := by
  rw [bestBucket?, List.min?_eq_some_iff, List.mem_filterMap]
  refine and_congr_right fun _ => ⟨?_, ?_⟩
  · intro hmin u hu other hother
    exact hmin other.rank (List.mem_filterMap.2 ⟨u, hu, by rw [hother]; rfl⟩)
  · intro hmin place hplace
    obtain ⟨u, hu, hbucket⟩ := List.mem_filterMap.1 hplace
    obtain ⟨other, hother, rfl⟩ := Option.map_eq_some_iff.1 hbucket
    exact hmin u hu other hother

/-- There is no best bucket where no leaf is in any. -/
theorem bestBucket?_eq_none_iff : bestBucket? h flat = none ↔ ∀ t ∈ flat, bucketOf h t = none := by
  rw [bestBucket?, List.min?_eq_none_iff, List.filterMap_eq_nil_iff]
  simp only [Option.map_eq_none_iff]

/-- Ranking keeps exactly the types from the best bucket. -/
theorem mem_rankFlat_iff : t ∈ rankFlat h c flat ↔ IsBest h flat t := by
  rw [rankFlat]
  cases hbest : bestBucket? h flat with
  | none =>
      have hnone := bestBucket?_eq_none_iff.1 hbest
      constructor
      · intro ht
        exact absurd ht List.not_mem_nil
      · rintro ⟨ht, bucket, hbucket, -⟩
        rw [hnone t ht] at hbucket
        cases hbucket
  | some best =>
      obtain ⟨⟨u, hu, hplace⟩, hmin⟩ := bestBucket?_eq_some_iff.1 hbest
      dsimp only
      rw [List.mem_mergeSort, List.mem_filter, decide_eq_true_iff]
      constructor
      · rintro ⟨ht, htplace⟩
        obtain ⟨bucket, hbucket, rfl⟩ := Option.map_eq_some_iff.1 htplace
        exact ⟨ht, bucket, hbucket, hmin⟩
      · rintro ⟨ht, bucket, hbucket, hle⟩
        obtain ⟨other, hother, rfl⟩ := Option.map_eq_some_iff.1 hplace
        rw [hbucket, Option.map_some]
        have hsame := Nat.le_antisymm (hle u hu other hother) (hmin t ht bucket hbucket)
        exact ⟨ht, congrArg some hsame⟩

/-- Nothing is ranked exactly if no leaf is in a bucket. -/
theorem rankFlat_eq_nil_iff : rankFlat h c flat = [] ↔ ∀ t ∈ flat, bucketOf h t = none := by
  rw [← bestBucket?_eq_none_iff (h := h)]
  constructor
  · intro hnil
    cases hbest : bestBucket? h flat with
    | none => rfl
    | some best =>
        obtain ⟨⟨t, ht, hplace⟩, hmin⟩ := bestBucket?_eq_some_iff.1 hbest
        obtain ⟨bucket, hbucket, rfl⟩ := Option.map_eq_some_iff.1 hplace
        have hmem : t ∈ rankFlat h c flat := mem_rankFlat_iff.2 ⟨ht, bucket, hbucket, hmin⟩
        rw [hnil] at hmem
        exact absurd hmem List.not_mem_nil
  · intro hbest
    rw [rankFlat, hbest]

/-! ## The ranked list -/

theorem nodup_of_names (hnames : (flat.map h.displayName).Nodup) : flat.Nodup :=
  (List.pairwise_map.1 hnames).imp fun hne heq => hne (congrArg h.displayName heq)

/-- Ranking leaves with different names gives leaves with different names. -/
theorem nodup_names_rankFlat (hnames : (flat.map h.displayName).Nodup) :
    ((rankFlat h c flat).map h.displayName).Nodup := by
  rw [rankFlat]
  cases bestBucket? h flat with
  | none => exact List.nodup_nil
  | some best =>
      dsimp only
      rw [((List.mergeSort_perm _ _).map h.displayName).nodup_iff]
      exact (List.filter_sublist.map h.displayName).nodup hnames

/-- What is ranked is in the order of preference. -/
theorem pairwise_precedes_rankFlat (h : Host) (c : Config) (flat : List TypeId) :
    (rankFlat h c flat).Pairwise fun a b => precedes h c a b = true := by
  rw [rankFlat]
  cases bestBucket? h flat with
  | none => exact List.Pairwise.nil
  | some best =>
      refine List.pairwise_mergeSort ?_ precedes_total _
      intro a b d hab hbd
      exact precedes_trans hab hbd

/-- Types with names of their own are ranked by kind, and within a kind by name. -/
theorem pairwise_rankFlat (hnames : (flat.map h.displayName).Nodup) :
    (rankFlat h c flat).Pairwise (Before h c) := by
  have hdistinct := List.pairwise_map.1 (nodup_names_rankFlat (c := c) hnames)
  refine ((pairwise_precedes_rankFlat h c flat).and hdistinct).imp ?_
  rintro a b ⟨hab, hname⟩
  rcases precedes_iff.1 hab with hbefore | ⟨-, hsame, -⟩
  · exact hbefore
  · exact absurd hsame hname

/-! ## Orders of the leaves -/

/-- The order of the leaves plays no part in their ranking. -/
theorem rankFlat_eq_of_perm (hperm : xs.Perm ys) : rankFlat h c xs = rankFlat h c ys := by
  have hbest : bestBucket? h xs = bestBucket? h ys := by
    refine Option.ext fun best => ?_
    simp only [bestBucket?_eq_some_iff, hperm.mem_iff]
  rw [rankFlat, rankFlat, hbest]
  cases bestBucket? h ys with
  | none => rfl
  | some best =>
      exact mergeSort_eq_of_perm (fun _ _ _ hab hbd => precedes_trans hab hbd) precedes_total
        (fun _ _ _ _ => eq_of_precedes) (hperm.filter _)

/-- A union is settled alike in every order of its leaves, unless an existing text is matched with
leaves of no bucket. -/
theorem resolveFlat_eq_of_perm {existing : Option String} (hperm : xs.Perm ys)
    (hranked : existing = none ∨ rankFlat h c xs ≠ []) :
    resolveFlat h c xs existing = resolveFlat h c ys existing := by
  have hrank : rankFlat h c xs = rankFlat h c ys := rankFlat_eq_of_perm hperm
  match xs, ys with
  | [], ys => rw [hperm.nil_eq]
  | [only], ys => rw [hperm.singleton_eq]
  | _ :: _ :: _, [] => exact absurd hperm.length_eq (by simp)
  | _ :: _ :: _, [_] => exact absurd hperm.length_eq (by simp)
  | x :: x' :: xs, y :: y' :: ys =>
      simp only [resolveFlat, ← hrank]
      rcases hranked with rfl | hne
      · rfl
      · have hempty : (rankFlat h c (x :: x' :: xs)).isEmpty = false := by
          rw [List.isEmpty_eq_false_iff]
          exact hne
        simp only [hempty, Bool.false_eq_true, if_false]

/-! ## Sets of leaves -/

/-- A type is a leaf of one of the members. -/
def IsLeafAmong (h : Host) (members : List TypeId) (leaf : TypeId) : Prop :=
  ∃ m ∈ members, IsLeafOf h leaf m

/-- No two leaves of the members have one rendered name. -/
def NamesTell (h : Host) (members : List TypeId) : Prop :=
  ∀ a b, IsLeafAmong h members a → IsLeafAmong h members b → h.displayName a = h.displayName b →
    a = b

/-- Members that nest within the bound have the leaves that flattening looks for. -/
theorem isLeafAmong_iff (hnest : ∀ m ∈ members, NestsWithin h maxNesting m) :
    IsLeafAmong h members t ↔ t ∈ members.flatMap (leaves h maxNesting) := by
  rw [List.mem_flatMap]
  exact exists_congr fun m => and_congr_right fun hm => (mem_leaves_iff (hnest m hm)).symm

/-- If names tell the leaves apart, flattening keeps all of them. -/
theorem mem_flatten_iff (hnest : ∀ m ∈ members, NestsWithin h maxNesting m)
    (htell : NamesTell h members) : t ∈ flatten h members ↔ IsLeafAmong h members t := by
  constructor
  · intro ht
    exact (isLeafAmong_iff hnest).2 (mem_leaves_of_mem_flatten ht)
  · intro ht
    obtain ⟨u, hu, hname⟩ := exists_mem_flatten ((isLeafAmong_iff hnest).1 ht)
    have hleaf := (isLeafAmong_iff hnest).2 (mem_leaves_of_mem_flatten hu)
    exact htell u t hleaf ht hname ▸ hu

/-- Unions with the same leaves are flattened to the same types, in some order. -/
theorem flatten_perm (hnest : ∀ m ∈ members, NestsWithin h maxNesting m)
    (hnest' : ∀ m ∈ others, NestsWithin h maxNesting m) (htell : NamesTell h members)
    (hsame : ∀ leaf, IsLeafAmong h members leaf ↔ IsLeafAmong h others leaf) :
    (flatten h members).Perm (flatten h others) := by
  have htell' : NamesTell h others := by
    intro a b ha hb hname
    exact htell a b ((hsame a).2 ha) ((hsame b).2 hb) hname
  refine (List.perm_ext_iff_of_nodup (nodup_of_names (nodup_names h members))
    (nodup_of_names (nodup_names h others))).2 fun t => ?_
  rw [mem_flatten_iff hnest htell, mem_flatten_iff hnest' htell', hsame]

/-- Ranking gives the flattened members from the best bucket, each once, by kind and then by
rendered name; and where names tell the leaves apart, members with the same leaves are ranked,
signed and settled alike. -/
theorem rank_characterized (h : Host) (c : Config) (members : List TypeId) :
    (rank h c members).Nodup ∧
    (∀ t, t ∈ rank h c members ↔ IsBest h (flatten h members) t) ∧
    (rank h c members).Pairwise (Before h c) ∧
    (rank h c members = [] ↔ ∀ t ∈ flatten h members, bucketOf h t = none) ∧
    ∀ others : List TypeId, (∀ m ∈ members ++ others, NestsWithin h maxNesting m) →
      NamesTell h members →
      (∀ leaf, IsLeafAmong h members leaf ↔ IsLeafAmong h others leaf) →
      rank h c members = rank h c others ∧
      signature h members = signature h others ∧
      resolve h c members none = resolve h c others none ∧
      ∀ leaf, IsLeafAmong h members leaf → (bucketOf h leaf).isSome = true →
        ∀ existing, resolve h c members existing = resolve h c others existing := by
  have hnames := nodup_names h members
  refine ⟨nodup_of_names (nodup_names_rankFlat hnames), fun t => mem_rankFlat_iff,
    pairwise_rankFlat hnames, rankFlat_eq_nil_iff, ?_⟩
  intro others hnest htell hsame
  have hnest' := List.forall_mem_append.1 hnest
  have hperm : (flatten h members).Perm (flatten h others) :=
    flatten_perm hnest'.1 hnest'.2 htell hsame
  refine ⟨rankFlat_eq_of_perm hperm, ?_, resolveFlat_eq_of_perm hperm (.inl rfl), ?_⟩
  · exact signature_congr fun name => (hperm.map h.displayName).mem_iff
  · intro leaf hleaf hbucket existing
    refine resolveFlat_eq_of_perm hperm (.inr fun hnil => ?_)
    have hnone := rankFlat_eq_nil_iff.1 hnil leaf ((mem_flatten_iff hnest'.1 htell).2 hleaf)
    rw [hnone] at hbucket
    exact Bool.false_ne_true hbucket

/-- A host with `int`, `str` and `None`, with the union of `None` and `int` as type 3, and with a
union of that, twice, and `str` as type 4. -/
def numbers : Host where
  shape t :=
    match t.index with
    | 0 => .builtin none "int"
    | 1 => .builtin none "str"
    | 2 => .noneType
    | 3 => .union [⟨2⟩, ⟨0⟩]
    | _ => .union [⟨3⟩, ⟨1⟩, ⟨3⟩]
  displayName t :=
    match t.index with
    | 0 => "int"
    | 1 => "str"
    | _ => "None"
  symbolOf _ := none
  symbol _ := none
  provenance _ := none
  needsArguments _ := false
  lookup _ _ := none
  visibleAlias _ _ := none
  callee _ := none

/-- The nested union and its three leaves in another order. -/
theorem rank_numbers :
    (∀ m ∈ [⟨4⟩] ++ [⟨1⟩, ⟨0⟩, ⟨2⟩], NestsWithin numbers maxNesting m) ∧
    NamesTell numbers [⟨4⟩] ∧
    (∀ leaf, IsLeafAmong numbers [⟨4⟩] leaf ↔ IsLeafAmong numbers [⟨1⟩, ⟨0⟩, ⟨2⟩] leaf) ∧
    IsLeafAmong numbers [⟨4⟩] ⟨0⟩ ∧ (bucketOf numbers ⟨0⟩).isSome = true ∧
    rank numbers Config.default [⟨4⟩] = [⟨0⟩, ⟨1⟩, ⟨2⟩] ∧
    rank numbers Config.default [⟨4⟩] = rank numbers Config.default [⟨1⟩, ⟨0⟩, ⟨2⟩] ∧
    signature numbers [⟨4⟩] = signature numbers [⟨1⟩, ⟨0⟩, ⟨2⟩] ∧
    resolve numbers Config.default [⟨4⟩] (some "'x'") =
      resolve numbers Config.default [⟨1⟩, ⟨0⟩, ⟨2⟩] (some "'x'") := by
  have hnest : ∀ m ∈ [⟨4⟩] ++ [⟨1⟩, ⟨0⟩, ⟨2⟩], NestsWithin numbers maxNesting m := by decide
  have hnest' := List.forall_mem_append.1 hnest
  have htell : NamesTell numbers [⟨4⟩] := by
    intro a b ha hb
    rw [isLeafAmong_iff hnest'.1] at ha hb
    revert b
    revert a
    decide
  have hsame : ∀ leaf, IsLeafAmong numbers [⟨4⟩] leaf ↔
      IsLeafAmong numbers [⟨1⟩, ⟨0⟩, ⟨2⟩] leaf := by
    intro leaf
    rw [isLeafAmong_iff hnest'.1, isLeafAmong_iff hnest'.2]
    have hleaves : ([⟨4⟩] : List TypeId).flatMap (leaves numbers maxNesting) =
        [⟨2⟩, ⟨0⟩, ⟨1⟩, ⟨2⟩, ⟨0⟩] := by decide
    have hleaves' : ([⟨1⟩, ⟨0⟩, ⟨2⟩] : List TypeId).flatMap (leaves numbers maxNesting) =
        [⟨1⟩, ⟨0⟩, ⟨2⟩] := by decide
    rw [hleaves, hleaves']
    simp only [List.mem_cons, List.not_mem_nil, or_false]
    tauto
  have hleaf : IsLeafAmong numbers [⟨4⟩] ⟨0⟩ := (isLeafAmong_iff hnest'.1).2 (by decide)
  obtain ⟨-, -, -, -, hagree⟩ := rank_characterized numbers Config.default [⟨4⟩]
  obtain ⟨hrank, hsignature, -, hresolve⟩ := hagree [⟨1⟩, ⟨0⟩, ⟨2⟩] hnest htell hsame
  exact ⟨hnest, htell, hsame, hleaf, by decide, by cbv, hrank, hsignature,
    hresolve ⟨0⟩ hleaf (by decide) (some "'x'")⟩

end Union

end CallFill
