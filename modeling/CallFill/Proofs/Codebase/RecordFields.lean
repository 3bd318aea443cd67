import CallFill.Project
import Mathlib.Data.List.Nodup

/-!
# The fields of a record

The fields of a class follow from tables, one for each class: the tables of its record bases are
written over each other, the last base first, and then its own fields, where a field of a name that
is there replaces it in place. By the rule of data classes the table holds the fields that the
constructor does not take as well, and these are left out of the table of the class that is asked
for, at the end (`Project.dataclassFields`). `Project.recordFields` leaves them out of every table
on the way.

The two are compared here. Every field of the rule is a field of the record, with the same default
and the same type (`Project.mem_recordFields_of_mem_dataclassFields`). There are no others where
bases agree on what they leave out (`Project.mem_recordFields_iff`), and the order is the same where
moreover no class takes up again what it has left out (`Project.recordFields_eq`). Neither holds in
general: a field that the first of two bases leaves out, the second one brings back
(`Project.recordFields_of_two_bases`), and a field that is taken up again goes to the end
(`Project.recordFields_of_return`).
-/

namespace CallFill

open KeyedList

namespace Project

/-! ## Tables of declared fields -/

/-- A table of declared fields with one more: it replaces the one of its name where that stands. -/
def declare (table : KeyedList String TypedField) (f : TypedField) : KeyedList String TypedField :=
  put table f.definition.name f

/-- A table of the fields that the constructor takes, with one more that a class declares: one that
the constructor does not take removes the one of its name. -/
def take (table : KeyedList String Field) (f : TypedField) : KeyedList String Field :=
  if f.definition.isInit then put table f.definition.name (constructorField f)
  else drop table f.definition.name

/-- The fields of a table that the constructor takes, as it takes them. -/
def taken (table : KeyedList String TypedField) : KeyedList String Field :=
  (table.filter fun e => e.2.definition.isInit).map fun e => (e.1, constructorField e.2)

/-- Whatever a table declares by a name, the constructor takes. -/
def Takes (table : KeyedList String TypedField) (name : String) : Prop :=
  ∀ e ∈ table, e.1 = name → e.2.definition.isInit = true

/-- Of a field that both tables declare, the constructor takes both or neither. -/
def Agree (table table' : KeyedList String TypedField) : Prop :=
  ∀ e ∈ table, ∀ e' ∈ table', e.1 = e'.1 → e.2.definition.isInit = e'.2.definition.isInit

variable {table table' entries : KeyedList String TypedField} {name : String} {f : TypedField}

/-- The constructor takes a field of the table exactly if the field says so. -/
theorem taken_cons (e : String × TypedField) (table : KeyedList String TypedField) :
    taken (e :: table) =
      if e.2.definition.isInit then (e.1, constructorField e.2) :: taken table
      else taken table := by
  rw [taken, List.filter_cons]
  split <;> rfl

/-- A name that the constructor takes is that of a field declared to be taken. -/
theorem mem_keys_of_mem_keys_taken (h : name ∈ keys (taken table)) :
    ∃ e ∈ table, e.1 = name ∧ e.2.definition.isInit = true := by
  obtain ⟨_, hentry, rfl⟩ := List.mem_map.1 h
  obtain ⟨e, he, rfl⟩ := List.mem_map.1 hentry
  exact ⟨e, (List.mem_filter.1 he).1, rfl, (List.mem_filter.1 he).2⟩

/-- Fields with different names have different names in the constructor. -/
theorem nodup_taken (h : (keys table).Nodup) : (keys (taken table)).Nodup := by
  rw [keys, taken, List.map_map]
  exact (List.filter_sublist.map Prod.fst).nodup h

/-- By a name the constructor takes the field that the table has there, if that is to be taken. -/
theorem get?_taken (h : (keys table).Nodup) (name : String) :
    get? (taken table) name = (get? table name).bind fun f =>
      if f.definition.isInit then some (constructorField f) else none := by
  induction table with
  | nil => rfl
  | cons e table ih =>
      obtain ⟨key, f⟩ := e
      obtain ⟨hfirst, hrest⟩ := List.nodup_cons.1 h
      rw [taken_cons, get?]
      by_cases hkey : key = name
      · rw [if_pos hkey, Option.bind_some]
        by_cases hinit : f.definition.isInit = true
        · rw [if_pos hinit, if_pos hinit, get?, if_pos hkey]
        · have hnone : get? table name = none := get?_eq_none_iff.2 (hkey ▸ hfirst)
          rw [if_neg hinit, if_neg hinit, ih hrest, hnone, Option.bind_none]
      · rw [if_neg hkey, ← ih hrest]
        split
        · rw [get?, if_neg hkey]
        · rfl

/-! What the constructor takes of a table, after each of the two ways in which a table grows. -/

/-- A field that the constructor takes goes where it would go without those it does not take, unless
it replaces one of these. -/
theorem taken_put (h : Takes table name) (hinit : f.definition.isInit = true) :
    taken (put table name f) = put (taken table) name (constructorField f) := by
  induction table with
  | nil => rw [put, taken_cons, if_pos hinit]; rfl
  | cons e table ih =>
      obtain ⟨key, g⟩ := e
      have hrest : Takes table name := fun e he => h e (List.mem_cons_of_mem _ he)
      rw [put, taken_cons]
      by_cases hkey : key = name
      · have hg : g.definition.isInit = true := h _ List.mem_cons_self hkey
        rw [if_pos hkey, taken_cons, if_pos hinit, if_pos hg, put, if_pos hkey]
      · rw [if_neg hkey, taken_cons, ih hrest]
        split
        · rw [put, if_neg hkey]
        · rfl

/-- A field that the constructor does not take removes the one of its name. -/
theorem taken_put_out (h : (keys table).Nodup) (hinit : ¬f.definition.isInit = true) :
    taken (put table name f) = drop (taken table) name := by
  induction table with
  | nil => rw [put, taken_cons, if_neg hinit]; rfl
  | cons e table ih =>
      obtain ⟨key, g⟩ := e
      obtain ⟨hfirst, hrest⟩ := List.nodup_cons.1 h
      rw [put, taken_cons]
      by_cases hkey : key = name
      · have habsent : name ∉ keys (taken table) := by
          intro hname
          obtain ⟨e, he, hename, -⟩ := mem_keys_of_mem_keys_taken hname
          exact hfirst (List.mem_map.2 ⟨e, he, hename.trans hkey.symm⟩)
        rw [if_pos hkey, taken_cons, if_neg hinit]
        split
        · rw [drop, List.filter_cons_of_neg (by simpa using hkey), ← drop, drop_of_not_mem habsent]
        · rw [drop_of_not_mem habsent]
      · rw [if_neg hkey, taken_cons, ih hrest]
        split
        · rw [drop, drop, List.filter_cons_of_pos (by simpa using hkey)]
        · rfl

/-- Where two tables agree, nothing is lost by leaving out what the constructor does not take before
the one is written over the other. -/
theorem taken_putAll (h : Agree table entries) (htable : (keys table).Nodup)
    (hentries : (keys entries).Nodup) :
    taken (putAll table entries) = putAll (taken table) (taken entries) := by
  induction entries generalizing table with
  | nil => rfl
  | cons e entries ih =>
      obtain ⟨hfirst, hrest⟩ := List.nodup_cons.1 hentries
      have hagree : Agree (put table e.1 e.2) entries := by
        intro d hd d' hd' hkey
        rcases mem_put hd with hd | rfl
        · exact h d hd d' (List.mem_cons_of_mem e hd') hkey
        · exact absurd (List.mem_map_of_mem hd') (hkey ▸ hfirst)
      have hsame : ∀ d ∈ table, d.1 = e.1 → d.2.definition.isInit = e.2.definition.isInit :=
        fun d hd hkey => h d hd e List.mem_cons_self hkey
      show taken (putAll (put table e.1 e.2) entries) = _
      rw [ih hagree (nodup_put htable _ _) hrest, taken_cons]
      by_cases hinit : e.2.definition.isInit = true
      · rw [if_pos hinit, taken_put (fun d hd hkey => (hsame d hd hkey).trans hinit) hinit]
        rfl
      · have habsent : e.1 ∉ keys (taken table) := by
          intro hname
          obtain ⟨d, hd, hkey, hdinit⟩ := mem_keys_of_mem_keys_taken hname
          exact hinit ((hsame d hd hkey).symm.trans hdinit)
        rw [if_neg hinit, taken_put_out htable hinit, drop_of_not_mem habsent]

/-! ## The two tables of a class -/

variable (p : Project)

/-- The fields that a class declares itself, without the markers of its configuration. -/
def ownFields (id : ClassId) : List TypedField :=
  ((p.typedClass? id).elim [] TypedClass.fields).filter fun f =>
    !p.config.isConfigMarker f.definition.name

/-- The record bases of a class, the last one first, looking at record bases at most so many levels
up. -/
def recordBases (levels : Nat) (id : ClassId) : List ClassId :=
  (p.baseClasses id).reverse.filter fun base => (p.recordOriginWithin levels base).isSome

/-- All fields that a record has by its own and its bases' declarations, by their names, looking at
record bases at most so many levels up; those that the constructor does not take are among them. -/
def declaredFieldsWithin : Nat → ClassId → KeyedList String TypedField
  | 0, _ => []
  | n + 1, id =>
    (p.ownFields id).foldl declare ((p.recordBases n id).foldl
      (fun table base => putAll table (declaredFieldsWithin n base)) [])

/-- The fields that a record inherits, those that the constructor does not take among them. -/
def inheritedFields (levels : Nat) (id : ClassId) : KeyedList String TypedField :=
  (p.recordBases levels id).foldl
    (fun table base => putAll table (p.declaredFieldsWithin levels base)) []

/-- The fields of a record by the rule of data classes. -/
def dataclassFields (id : ClassId) : List Field :=
  (taken (p.declaredFieldsWithin Codebase.depthBound id)).map (·.2)

variable {p} {id : ClassId} {levels : Nat}

/-- The fields of a record are those of its bases, overridden by its own. -/
theorem recordFieldsWithin_succ (p : Project) (levels : Nat) (id : ClassId) :
    p.recordFieldsWithin (levels + 1) id =
      (p.ownFields id).foldl take ((p.recordBases levels id).foldl
        (fun table base => putAll table (p.recordFieldsWithin levels base)) []) := by
  rw [recordFieldsWithin, recordBases, List.foldl_filter, ownFields, List.foldl_filter]
  congr 1
  funext table f
  rw [withField, take]
  cases p.config.isConfigMarker f.definition.name <;> rfl

/-- The fields declared are those inherited, overridden by its own. -/
theorem declaredFieldsWithin_succ (p : Project) (levels : Nat) (id : ClassId) :
    p.declaredFieldsWithin (levels + 1) id =
      (p.ownFields id).foldl declare (p.inheritedFields levels id) :=
  rfl

theorem nodup_inheritedFields (p : Project) (levels : Nat) (id : ClassId) :
    (keys (p.inheritedFields levels id)).Nodup :=
  List.foldlRecOn (motive := fun table => (keys table).Nodup) _ _ List.nodup_nil
    fun _ htable _ _ => nodup_putAll htable _

/-- Fields are declared under different names. -/
theorem nodup_declaredFieldsWithin (p : Project) (levels : Nat) (id : ClassId) :
    (keys (p.declaredFieldsWithin levels id)).Nodup := by
  cases levels with
  | zero => exact List.nodup_nil
  | succ levels =>
      exact List.foldlRecOn (motive := fun table => (keys table).Nodup) _ _
        (nodup_inheritedFields p levels id) fun _ htable _ _ => nodup_put htable _ _

/-- Fields are taken under different names. -/
theorem nodup_recordFieldsWithin (p : Project) (levels : Nat) (id : ClassId) :
    (keys (p.recordFieldsWithin levels id)).Nodup := by
  cases levels with
  | zero => exact List.nodup_nil
  | succ levels =>
      rw [recordFieldsWithin_succ]
      refine List.foldlRecOn (motive := fun table => (keys table).Nodup) _ _ ?_ ?_
      · exact List.foldlRecOn (motive := fun table => (keys table).Nodup) _ _ List.nodup_nil
          fun table htable base _ => nodup_putAll htable _
      · intro table htable f _
        rw [take]
        split
        · exact nodup_put htable _ _
        · exact nodup_drop htable _

/-- The constructor of a dataclass takes the fields declared to be taken. -/
theorem mem_dataclassFields_iff {field : Field} :
    field ∈ p.dataclassFields id ↔
      ∃ name, get? (taken (p.declaredFieldsWithin Codebase.depthBound id)) name = some field :=
  mem_values_iff (nodup_taken (nodup_declaredFieldsWithin p _ id))

/-- A field of a record is one that is found under its name. -/
theorem mem_recordFields_iff_get? {field : Field} :
    field ∈ p.recordFields id ↔
      ∃ name, get? (p.recordFieldsWithin Codebase.depthBound id) name = some field :=
  mem_values_iff (nodup_recordFieldsWithin p _ id)

/-! ## No field is lost -/

/-- A table of fields has what the constructor takes of a table of declared fields, and nothing by a
name that is not declared. -/
structure Covers (fields : KeyedList String Field) (declared : KeyedList String TypedField) :
    Prop where
  of_taken : ∀ name f, get? declared name = some f → f.definition.isInit = true →
    get? fields name = some (constructorField f)
  of_undeclared : ∀ name, get? declared name = none → get? fields name = none

/-- Bases that cover what is declared in them do so together. -/
theorem Covers.putAll {fields fields' : KeyedList String Field}
    {declared declared' : KeyedList String TypedField} (h : Covers fields declared)
    (h' : Covers fields' declared') (hfields : (keys fields').Nodup)
    (hdeclared : (keys declared').Nodup) :
    Covers (KeyedList.putAll fields fields') (KeyedList.putAll declared declared') where
  of_taken := by
    intro name f hf hinit
    rw [get?_putAll_of_nodup hdeclared, Option.or_eq_some_iff] at hf
    rw [get?_putAll_of_nodup hfields]
    rcases hf with hf | ⟨hnone, hf⟩
    · rw [h'.of_taken name f hf hinit, Option.some_or]
    · rw [h'.of_undeclared name hnone, Option.none_or, h.of_taken name f hf hinit]
  of_undeclared := by
    intro name hnone
    rw [get?_putAll_of_nodup hdeclared, Option.or_eq_none_iff] at hnone
    rw [get?_putAll_of_nodup hfields, h'.of_undeclared name hnone.1, Option.none_or,
      h.of_undeclared name hnone.2]

/-- A field more is covered by what is taken of it. -/
theorem Covers.declare {fields : KeyedList String Field}
    {declared : KeyedList String TypedField} (h : Covers fields declared) (f : TypedField) :
    Covers (take fields f) (declare declared f) where
  of_taken := by
    intro name g hg hinit
    -- the name is that of the field, or one whose entry neither table changes
    rw [Project.declare, get?_put] at hg
    by_cases hname : f.definition.name = name
    · rw [if_pos hname] at hg
      obtain rfl := Option.some.inj hg
      rw [take, if_pos hinit, get?_put, if_pos hname]
    · rw [if_neg hname] at hg
      rw [take]
      split
      · rw [get?_put, if_neg hname, h.of_taken name g hg hinit]
      · rw [get?_drop, if_neg hname, h.of_taken name g hg hinit]
  of_undeclared := by
    intro name hnone
    rw [Project.declare, get?_put] at hnone
    by_cases hname : f.definition.name = name
    · rw [if_pos hname] at hnone
      cases hnone
    · rw [if_neg hname] at hnone
      rw [take]
      split
      · rw [get?_put, if_neg hname, h.of_undeclared name hnone]
      · rw [get?_drop, if_neg hname, h.of_undeclared name hnone]

/-- Induction on the levels: a class covers what its bases declare, written over each other, and
each own field keeps this. -/
theorem covers_within (p : Project) (levels : Nat) (id : ClassId) :
    Covers (p.recordFieldsWithin levels id) (p.declaredFieldsWithin levels id) := by
  have hnil : Covers [] [] := ⟨fun _ _ h => (nomatch h), fun _ _ => rfl⟩
  induction levels generalizing id with
  | zero => exact hnil
  | succ levels ih =>
      rw [recordFieldsWithin_succ, declaredFieldsWithin_succ]
      refine List.foldl_rel ?_ fun f _ fields declared h => h.declare f
      exact List.foldl_rel hnil fun base _ fields declared h =>
        h.putAll (ih base) (nodup_recordFieldsWithin p levels base)
          (nodup_declaredFieldsWithin p levels base)

/-- Every field that the rule of data classes gives a record is one of its fields. -/
theorem mem_recordFields_of_mem_dataclassFields {field : Field}
    (h : field ∈ p.dataclassFields id) : field ∈ p.recordFields id := by
  obtain ⟨name, hname⟩ := mem_dataclassFields_iff.1 h
  rw [get?_taken (nodup_declaredFieldsWithin p _ id), Option.bind_eq_some_iff] at hname
  obtain ⟨f, hf, htaken⟩ := hname
  split at htaken
  · next hinit =>
      obtain rfl := Option.some.inj htaken
      exact mem_recordFields_iff_get?.2
        ⟨name, (covers_within p Codebase.depthBound id).of_taken name f hf hinit⟩
  · exact nomatch htaken

/-! ## No field is brought back -/

/-- Of a field that two bases have, the constructor takes both or neither, at the class and at all
its record bases. -/
def BasesAgree (p : Project) : Nat → ClassId → Prop
  | 0, _ => True
  | n + 1, id =>
    (∀ base ∈ p.recordBases n id, ∀ base' ∈ p.recordBases n id,
      Agree (p.declaredFieldsWithin n base) (p.declaredFieldsWithin n base')) ∧
    ∀ base ∈ p.recordBases n id, BasesAgree p n base

/-- Agreement with a table is kept by writing tables that agree with it. -/
theorem Agree.putAll (h : Agree table table') (hentries : Agree entries table') :
    Agree (KeyedList.putAll table entries) table' :=
  fun e he => (mem_putAll he).elim (h e) (hentries e)

/-- Two tables have the same entries where the constructor takes what the second declares. -/
def Same (fields : KeyedList String Field) (declared : KeyedList String TypedField) : Prop :=
  ∀ name, get? fields name = get? (taken declared) name

/-- Bases that agree on what they declare leave the same fields by either rule. -/
theorem Same.putAll {fields fields' : KeyedList String Field}
    {declared declared' : KeyedList String TypedField} (h : Same fields declared)
    (h' : Same fields' declared') (hagree : Agree declared declared')
    (hfields : (keys fields').Nodup) (hdeclared : (keys declared).Nodup)
    (hdeclared' : (keys declared').Nodup) :
    Same (KeyedList.putAll fields fields') (KeyedList.putAll declared declared') := by
  intro name
  rw [get?_putAll_of_nodup hfields, taken_putAll hagree hdeclared hdeclared',
    get?_putAll_of_nodup (nodup_taken hdeclared'), h name, h' name]

/-- A field more leaves the same fields by either rule. -/
theorem Same.declare {fields : KeyedList String Field}
    {declared : KeyedList String TypedField} (h : Same fields declared)
    (hdeclared : (keys declared).Nodup) (f : TypedField) :
    Same (take fields f) (declare declared f) := by
  intro name
  rw [Project.declare, get?_taken (nodup_put hdeclared _ _), get?_put, take]
  by_cases hname : f.definition.name = name
  · rw [if_pos hname, Option.bind_some]
    split
    · rw [get?_put, if_pos hname]
    · rw [get?_drop, if_pos hname]
  · rw [if_neg hname, ← get?_taken hdeclared, ← h name]
    split
    · rw [get?_put, if_neg hname]
    · rw [get?_drop, if_neg hname]

/-- What is written agrees with all record bases of a class, those still to come among them. -/
structure FitsBases (p : Project) (levels : Nat) (id : ClassId)
    (declared : KeyedList String TypedField) : Prop where
  nodup : (keys declared).Nodup
  agree : ∀ base ∈ p.recordBases levels id, Agree declared (p.declaredFieldsWithin levels base)

/-- One base more fits if the others agree with it. -/
theorem FitsBases.putAll {declared : KeyedList String TypedField} {base : ClassId}
    (h : p.FitsBases levels id declared)
    (hagree : ∀ base' ∈ p.recordBases levels id,
      Agree (p.declaredFieldsWithin levels base) (p.declaredFieldsWithin levels base')) :
    p.FitsBases levels id (KeyedList.putAll declared (p.declaredFieldsWithin levels base)) :=
  ⟨nodup_putAll h.nodup _, fun base' hmem => (h.agree base' hmem).putAll (hagree base' hmem)⟩

/-- A relation between the two tables of what a class inherits: it is kept by writing the tables of
a base that agree with what is there. -/
theorem inherited_rel {R : KeyedList String Field → KeyedList String TypedField → Prop}
    (hagree : ∀ base ∈ p.recordBases levels id, ∀ base' ∈ p.recordBases levels id,
      Agree (p.declaredFieldsWithin levels base) (p.declaredFieldsWithin levels base'))
    (hnil : R [] [])
    (hbase : ∀ base ∈ p.recordBases levels id, ∀ fields declared, R fields declared →
      (keys declared).Nodup → Agree declared (p.declaredFieldsWithin levels base) →
      R (putAll fields (p.recordFieldsWithin levels base))
        (putAll declared (p.declaredFieldsWithin levels base))) :
    R ((p.recordBases levels id).foldl
        (fun table base => putAll table (p.recordFieldsWithin levels base)) [])
      (p.inheritedFields levels id) := by
  have hfits : p.FitsBases levels id [] :=
    ⟨List.nodup_nil, fun _ _ _ he => absurd he List.not_mem_nil⟩
  refine (List.foldl_rel
    (r := fun fields declared => R fields declared ∧ p.FitsBases levels id declared)
    ⟨hnil, hfits⟩ ?_).1
  rintro base hmem fields declared ⟨hrel, hfits⟩
  exact ⟨hbase base hmem fields declared hrel hfits.nodup (hfits.agree base hmem),
    hfits.putAll (hagree base hmem)⟩

/-- Induction on the levels: tables of bases that agree are written over each other, and then the
own fields do the same to both. -/
theorem same_within (h : p.BasesAgree levels id) :
    Same (p.recordFieldsWithin levels id) (p.declaredFieldsWithin levels id) := by
  induction levels generalizing id with
  | zero => exact fun _ => rfl
  | succ levels ih =>
      obtain ⟨hagree, hbases⟩ := h
      rw [recordFieldsWithin_succ, declaredFieldsWithin_succ]
      have hinherited := inherited_rel (R := Same) hagree (fun _ => rfl)
        fun base hbase fields declared hsame hnodup hagree =>
          hsame.putAll (ih (hbases base hbase)) hagree (nodup_recordFieldsWithin p levels base)
            hnodup (nodup_declaredFieldsWithin p levels base)
      refine (List.foldl_rel
        (r := fun fields declared => Same fields declared ∧ (keys declared).Nodup)
        ⟨hinherited, nodup_inheritedFields p levels id⟩ ?_).1
      rintro f - fields declared ⟨hsame, hnodup⟩
      exact ⟨hsame.declare hnodup f, nodup_put hnodup _ _⟩

/-- Where bases agree on what they leave out, a record has the fields that the rule of data classes
gives it, and no others. -/
theorem mem_recordFields_iff {field : Field} (h : p.BasesAgree Codebase.depthBound id) :
    field ∈ p.recordFields id ↔ field ∈ p.dataclassFields id := by
  rw [mem_recordFields_iff_get?, mem_dataclassFields_iff]
  exact exists_congr fun name => by rw [same_within h name]

/-- Bases agree where no class has two different ones that are records. -/
theorem basesAgree_of_single
    (h : ∀ n id, ∀ base ∈ p.recordBases n id, ∀ base' ∈ p.recordBases n id, base = base')
    (levels : Nat) (id : ClassId) : p.BasesAgree levels id := by
  induction levels generalizing id with
  | zero => trivial
  | succ levels ih =>
      refine ⟨fun base hbase base' hbase' e he e' he' hname => ?_, fun base _ => ih base⟩
      obtain rfl := h levels id base hbase base' hbase'
      have hnodup := nodup_declaredFieldsWithin p levels base
      have hvalue := get?_of_mem hnodup he
      have hvalue' := get?_of_mem hnodup he'
      rw [Option.some.inj (hvalue.symm.trans (hname ▸ hvalue'))]

/-! ## No field goes to the end -/

/-- A class takes no field that it inherits as left out, or leaves out itself, and neither do its
record bases. -/
def NoReturn (p : Project) : Nat → ClassId → Prop
  | 0, _ => True
  | n + 1, id =>
    (∀ f ∈ p.ownFields id, f.definition.isInit = true →
      Takes (p.inheritedFields n id) f.definition.name ∧
      ∀ f' ∈ p.ownFields id, f'.definition.name = f.definition.name →
        f'.definition.isInit = true) ∧
    ∀ base ∈ p.recordBases n id, NoReturn p n base

/-- What the own fields of a class that are still to come find in a table, the constructor takes. -/
structure Keeps (p : Project) (id : ClassId) (declared : KeyedList String TypedField) : Prop where
  nodup : (keys declared).Nodup
  takes : ∀ f ∈ p.ownFields id, f.definition.isInit = true → Takes declared f.definition.name

/-- A field more keeps what was declared, unless it takes an own field out of the constructor. -/
theorem Keeps.declare {declared : KeyedList String TypedField} (h : p.Keeps id declared)
    (hown : ∀ g ∈ p.ownFields id, g.definition.isInit = true →
      f.definition.name = g.definition.name → f.definition.isInit = true) :
    p.Keeps id (declare declared f) where
  nodup := nodup_put h.nodup _ _
  takes := by
    intro g hg hinit e he hname
    rcases mem_put he with he | rfl
    · exact h.takes g hg hinit e he hname
    · exact hown g hg hinit hname

/-- Induction on the levels, as for `same_within`; now the own fields that the constructor takes
stay where they are. -/
theorem recordFieldsWithin_eq_taken (h : p.BasesAgree levels id) (hreturn : p.NoReturn levels id) :
    p.recordFieldsWithin levels id = taken (p.declaredFieldsWithin levels id) := by
  induction levels generalizing id with
  | zero => rfl
  | succ levels ih =>
      obtain ⟨hagree, hbases⟩ := h
      obtain ⟨hown, hreturns⟩ := hreturn
      rw [recordFieldsWithin_succ, declaredFieldsWithin_succ]
      have hinherited := inherited_rel (R := fun fields declared => fields = taken declared)
        hagree rfl fun base hbase fields declared hfields hnodup hagree => by
          rw [taken_putAll hagree hnodup (nodup_declaredFieldsWithin p levels base), hfields,
            ih (hbases base hbase) (hreturns base hbase)]
      have hkeeps : p.Keeps id (p.inheritedFields levels id) :=
        ⟨nodup_inheritedFields p levels id, fun f hf hinit => (hown f hf hinit).1⟩
      refine (List.foldl_rel
        (r := fun fields declared => fields = taken declared ∧ p.Keeps id declared)
        ⟨hinherited, hkeeps⟩ ?_).1
      rintro f hf fields declared ⟨hfields, hkeeps⟩
      refine ⟨?_, hkeeps.declare fun g hg hinit hname => (hown g hg hinit).2 f hf hname⟩
      rw [take, Project.declare, hfields]
      split
      · next hinit => rw [taken_put (hkeeps.takes f hf hinit) hinit]
      · next hinit => rw [taken_put_out hkeeps.nodup hinit]

/-- Where bases agree on what they leave out and no class takes up again what was left out, the
fields of a record are those of the rule of data classes, in this order. -/
theorem recordFields_eq (h : p.BasesAgree Codebase.depthBound id)
    (hreturn : p.NoReturn Codebase.depthBound id) : p.recordFields id = p.dataclassFields id := by
  rw [recordFields, recordFieldsWithin_eq_taken h hreturn]
  rfl

/-! ## Where the two differ -/

/-- Two classes with a field, of which the first leaves it out, and a class with both as bases. -/
def twoBases : List (String × String) :=
  [("main.py", "from dataclasses import dataclass, field\n" ++
    "@dataclass\nclass A:\n    x: int = field(init=False)\n" ++
    "@dataclass\nclass B:\n    x: int\n" ++
    "@dataclass\nclass C(A, B):\n    pass\n")]

/-- The second base brings back the field that the first one leaves out. -/
theorem recordFields_of_two_bases :
    ((ofSources .default twoBases).recordFields ⟨2⟩).map Field.name = ["x"] ∧
    ((ofSources .default twoBases).dataclassFields ⟨2⟩).map Field.name = [] := by
  decide +kernel

/-- A class that takes up again the field that its base leaves out. -/
def fieldTakenUpAgain : List (String × String) :=
  [("main.py", "from dataclasses import dataclass, field\n" ++
    "@dataclass\nclass A:\n    x: int = field(init=False)\n    y: int\n" ++
    "@dataclass\nclass B(A):\n    x: int\n")]

/-- The field does not keep its place: it goes behind the others. -/
theorem recordFields_of_return :
    ((ofSources .default fieldTakenUpAgain).recordFields ⟨1⟩).map Field.name = ["y", "x"] ∧
    ((ofSources .default fieldTakenUpAgain).dataclassFields ⟨1⟩).map Field.name = ["x", "y"] := by
  decide +kernel

end Project

end CallFill
