import CallFill.Proofs.Typing.Nesting

/-!
# Spellings of a union

A union is written with `|`, `Union` and `Optional`, with parts of it in quotes, and these are
nested in any way. Alternatives are flattened when they are read (`TypeExpr.members_ofTree`); the
forms and the quotes each take a level of typing (`Codebase.Spells`). However the same leaves are
spelled, the types have the same leaves, so the unions are flattened, ranked and settled alike
(`Project.settled_alike_of_spells`).

This is about what annotations are read as. The text of one is read on its own, and what stands
between quotes as it is written there. So an annotation that is broken at a `|`, inside the
parentheses of a parameter list, is read as two lines, which are no expression at all
(`Project.names_of_manySpellings`).
-/

namespace CallFill

open Source

/-! ## Alternatives -/

namespace TypeExpr

mutual

/-- The operands of alternatives, however these are nested and put into parentheses; any other tree
is its own only operand. -/
def operands : SyntaxTree → List SyntaxTree
  | .node kind role start stop children =>
    match kind, children with
    | .alternation, children => operandsIn .left children ++ operandsIn .right children
    | .unionType, children => operandsAmong children
    | .type, [inner] | .parenthesized, [inner] => operands inner
    | kind, children => [.node kind role start stop children]

/-- The operands of trees, one after another. -/
def operandsAmong : List SyntaxTree → List SyntaxTree
  | [] => []
  | t :: ts => operands t ++ operandsAmong ts

/-- The operands of the trees in a role. -/
def operandsIn (r : Role) : List SyntaxTree → List SyntaxTree
  | [] => []
  | t :: ts => if t.role = some r then operands t ++ operandsIn r ts else operandsIn r ts

end

/-- The kinds of trees whose operands lie further in. -/
def joiningKinds : List Kind := [.alternation, .unionType, .type, .parenthesized]

section Node

variable {source : List Char} {kind : Kind} {role : Option Role} {start stop : Nat}
  {children : List SyntaxTree}

/-- A tree of a kind that joins nothing is not read as a union. -/
theorem ofTree_ne_union (hkind : kind ∉ joiningKinds) (items : List TypeExpr) :
    ofTree source (.node kind role start stop children) ≠ union items := by
  intro h
  rw [ofTree.eq_def] at h
  dsimp only at h
  split at h
  all_goals first
    | exact hkind (by decide)
    | cases h
    | (split at h <;> cases h)

/-- Such a tree is its own only operand. -/
theorem operands_of_other (hkind : kind ∉ joiningKinds) :
    operands (.node kind role start stop children) = [.node kind role start stop children] := by
  rw [operands.eq_def]
  dsimp only
  split
  all_goals first
    | exact absurd (by decide) hkind
    | rfl

end Node

/-- An expression that is no union is its own only member. -/
theorem members_eq_singleton {e : TypeExpr} (h : ∀ items, e ≠ union items) : e.members = [e] := by
  cases e with
  | union items => exact absurd rfl (h items)
  | _ => rfl

mutual

/-- Alternatives are read as one union of what their operands are read as. -/
theorem members_ofTree (source : List Char) :
    ∀ t, (ofTree source t).members = (operands t).map (ofTree source)
  | .node kind role start stop children => by
    by_cases hkind : kind ∈ joiningKinds
    · simp only [joiningKinds, List.mem_cons, List.not_mem_nil, or_false] at hkind
      rcases hkind with rfl | rfl | rfl | rfl
      · rw [ofTree, operands, List.map_append, ← members_ofTreesIn source .left children,
          ← members_ofTreesIn source .right children]
        rfl
      · rw [ofTree, operands, ← members_ofTrees source children]
        rfl
      · match children with
        | [inner] => exact members_ofTree source inner
        | [] | _ :: _ :: _ => rfl
      · match children with
        | [inner] => exact members_ofTree source inner
        | [] | _ :: _ :: _ => rfl
    · rw [operands_of_other hkind, List.map_singleton]
      exact members_eq_singleton (ofTree_ne_union hkind)

/-- The members of trees are their operands, read one by one. -/
theorem members_ofTrees (source : List Char) :
    ∀ ts, (ofTrees source ts).flatMap members = (operandsAmong ts).map (ofTree source)
  | [] => rfl
  | t :: ts => by
    rw [ofTrees, operandsAmong, List.flatMap_cons, List.map_append, members_ofTree source t,
      members_ofTrees source ts]

theorem members_ofTreesIn (source : List Char) (r : Role) :
    ∀ ts, (ofTreesIn source r ts).flatMap members = (operandsIn r ts).map (ofTree source)
  | [] => rfl
  | t :: ts => by
    rw [ofTreesIn, operandsIn]
    split
    · rw [List.flatMap_cons, List.map_append, members_ofTree source t,
        members_ofTreesIn source r ts]
    · exact members_ofTreesIn source r ts

end

end TypeExpr

/-! ## Spellings -/

namespace Codebase

section Spells

variable (b : Codebase) (file : FileId)

/-- The name stands for a form of `typing`: it comes from a module of such forms, or it is bound to
nothing. -/
def IsForm (name form : String) : Prop :=
  (∃ module ∈ typingModules, b.resolve file name = some (.external (Dotted.qualify module form))) ∨
  (b.resolve file name = none ∧ Dotted.last name = form)

mutual

/-- The expression, of which at most so many levels are read, spells a union of the leaves, from
left to right. -/
inductive Spells : Nat → TypeExpr → List TypeExpr → Prop
  | leaf {n : Nat} {e : TypeExpr} (hfits : b.FitsWithin n file e) : Spells n e [e]
  | alternation {n : Nat} {items leaves : List TypeExpr} (hitems : SpellsAll n items leaves) :
      Spells (n + 1) (.union items) leaves
  | union {n : Nat} {base : String} {args leaves : List TypeExpr}
      (hbase : b.IsForm file base "Union") (hargs : SpellsAll n args leaves) :
      Spells (n + 1) (.subscript base args) leaves
  | optional {n : Nat} {base : String} {arg : TypeExpr} {leaves : List TypeExpr}
      (hbase : b.IsForm file base "Optional") (harg : Spells n arg leaves) :
      Spells (n + 1) (.subscript base [arg]) (leaves ++ [.none])
  | quoted {n : Nat} {text : String} {leaves : List TypeExpr}
      (htext : Spells n (b.annotation text) leaves) : Spells (n + 1) (.string text) leaves

/-- The expressions spell the leaves, one after another. -/
inductive SpellsAll : Nat → List TypeExpr → List TypeExpr → Prop
  | nil {n : Nat} : SpellsAll n [] []
  | cons {n : Nat} {e : TypeExpr} {es leaves others : List TypeExpr} (he : Spells n e leaves)
      (hes : SpellsAll n es others) : SpellsAll n (e :: es) (leaves ++ others)

end

end Spells

variable {b : Codebase} {file : FileId} {n : Nat} {base : String} {leaves : List TypeExpr}

/-- Alternatives take one level, however deep they are nested. -/
theorem spells_of_operands {source : List Char} {t : SyntaxTree} (ht : t.kind = .alternation)
    (h : b.SpellsAll file n ((TypeExpr.operands t).map (TypeExpr.ofTree source)) leaves) :
    b.Spells file (n + 1) (TypeExpr.ofTree source t) leaves := by
  obtain ⟨kind, role, start, stop, children⟩ := t
  obtain rfl : kind = .alternation := ht
  rw [← TypeExpr.members_ofTree, TypeExpr.ofTree] at h
  rw [TypeExpr.ofTree]
  exact .alternation h

/-! ## The types of spellings -/

/-- A name that stands for a form is recognized as it. -/
theorem formName?_of_isForm {form : String} (h : b.IsForm file base form)
    (hform : '.' ∉ form.toList) : formName? base (b.resolve file base) = some form := by
  rcases h with ⟨module, hmodule, hresolve⟩ | ⟨hresolve, hlast⟩
  · have hne : module ≠ "" := by
      rintro rfl
      exact absurd hmodule (by decide)
    rw [hresolve, formName?, Dotted.splitQualified_qualify hne hform]
    exact if_pos (List.contains_iff_mem.2 hmodule)
  · rw [hresolve, formName?, hlast]

/-- A union in brackets is planned as one of its arguments. -/
theorem plan_of_union (h : b.IsForm file base "Union") (args : List TypeExpr) :
    b.plan file (.subscript base args) = .union file args := by
  rw [plan, namedPlan, formName?_of_isForm h (by decide)]
  rfl

/-- An optional type is planned as one. -/
theorem plan_of_optional (h : b.IsForm file base "Optional") (arg : TypeExpr) :
    b.plan file (.subscript base [arg]) = .optional file arg := by
  rw [plan, namedPlan, formName?_of_isForm h (by decide)]
  rfl

/-- On the finished tables of the project, the expression has the type at a level at which it
fits. -/
def HasType (b : Codebase) (file : FileId) (e : TypeExpr) (t : TypeId) : Prop :=
  ∃ n, b.FitsWithin n file e ∧
    b.typeWithin n file e (Project.ofCodebase b).tables = (t, (Project.ofCodebase b).tables)

/-- An expression has at most one type. -/
theorem HasType.unique : Relator.RightUnique (b.HasType file) := by
  rintro e t t' ⟨n, hfits, ht⟩ ⟨k, hfits', ht'⟩
  -- the two levels may differ; above both of them typing is one function
  have hsame : b.typeWithin n file e = b.typeWithin k file e :=
    (typeWithin_of_fits hfits (Nat.le_max_left n k)).symm.trans
      (typeWithin_of_fits hfits' (Nat.le_max_right n k))
  rw [hsame] at ht
  exact congrArg Prod.fst (ht.symm.trans ht')

/-- All leaves of a type of the project. -/
def allLeaves (b : Codebase) : TypeId → List TypeId :=
  Union.leaves (Project.ofCodebase b).host depthBound

/-- The leaves of a union are those of its members. -/
theorem allLeaves_of_union {t : TypeId} {members : List TypeId}
    (ht : (Project.ofCodebase b).types.node t = .union members) :
    b.allLeaves t = members.flatMap b.allLeaves := by
  have hshape := Project.shape_eq_union_iff.2 ht
  have hnests := Project.nestsWithin_host b t members hshape
  refine (Union.leaves_of_union hshape Union.maxNesting).trans (List.flatMap_congr fun m hm => ?_)
  exact (Union.leaves_eq_of_le (hnests m hm) (Nat.le_succ Union.maxNesting)).symm

/-- A type that was entered before has the node it was entered with. -/
theorem node_of_enter {t : Tables} {node : TypeNode} {id : TypeId}
    (h : Tables.enter node t = (id, t)) : t.types.node id = node := by
  have hnode := t.types.node_intern node
  have htables : (Tables.enter node t).2 = t := congrArg Prod.snd h
  obtain rfl : (t.types.intern node).1 = id := congrArg Prod.fst h
  have htypes : (t.types.intern node).2 = t.types := congrArg Tables.types htables
  rwa [htypes] at hnode

/-- On the finished tables, the expressions have the types at this level. -/
abbrev TypedAll (b : Codebase) (n : Nat) (file : FileId) : List TypeExpr → List TypeId → Prop :=
  List.Forall₂ fun e t =>
    b.typeWithin n file e (Project.ofCodebase b).tables = (t, (Project.ofCodebase b).tables)

/-- The type of a union of expressions has the leaves of their types, be it a union or the type of a
single member. -/
theorem allLeaves_of_unionType {items : List TypeExpr} {t : TypeId}
    (h : unionType (b.typeWithin n) file items (Project.ofCodebase b).tables =
      (t, (Project.ofCodebase b).tables)) :
    ∃ members, b.TypedAll n file items members ∧
      b.allLeaves t = members.flatMap b.allLeaves := by
  have hsettles := b.settles_typeWithin n file
  rw [unionType] at h
  obtain ⟨members, hmembers, h⟩ := exists_of_bind_settled (Settles.mapM hsettles items)
    (fun members => by
      split
      · exact settles_pure _
      · exact settles_enter _) h
  refine ⟨members, forall₂_of_mapM_settled hsettles hmembers, ?_⟩
  split at h
  · next single =>
      obtain rfl : single = t := congrArg Prod.fst h
      rw [List.flatMap_singleton]
  · exact allLeaves_of_union (node_of_enter h)

mutual

/-- The leaves of a type are those of the types of the leaves that its expression spells. -/
theorem allLeaves_of_spells {n : Nat} {e : TypeExpr} {leaves : List TypeExpr} {t : TypeId}
    (h : b.Spells file n e leaves)
    (ht : b.typeWithin n file e (Project.ofCodebase b).tables =
      (t, (Project.ofCodebase b).tables)) :
    ∃ ts, List.Forall₂ (b.HasType file) leaves ts ∧ b.allLeaves t = ts.flatMap b.allLeaves := by
  match h with
  | .leaf hfits =>
      refine ⟨[t], .cons ⟨n, hfits, ht⟩ .nil, ?_⟩
      rw [List.flatMap_singleton]
  | .alternation hitems =>
      rw [typeWithin_succ] at ht
      obtain ⟨members, hmembers, hleaves⟩ := allLeaves_of_unionType ht
      rw [hleaves]
      exact allLeaves_of_spellsAll hitems hmembers
  | .union hbase hargs =>
      rw [typeWithin_succ, plan_of_union hbase] at ht
      obtain ⟨members, hmembers, hleaves⟩ := allLeaves_of_unionType ht
      rw [hleaves]
      exact allLeaves_of_spellsAll hargs hmembers
  | .quoted htext =>
      rw [typeWithin_succ] at ht
      exact allLeaves_of_spells htext ht
  | .optional (n := n) hbase harg =>
      -- `None` is no part that is read, so its type is known at any level
      rw [typeWithin_succ, plan_of_optional hbase, TypePlan.run] at ht
      obtain ⟨some', hsome, ht⟩ := exists_of_bind_settled (b.settles_typeWithin n file _)
        (fun _ => (settles_enter _).bind fun _ => settles_enter _) ht
      obtain ⟨none', hnone, ht⟩ :=
        exists_of_bind_settled (settles_enter _) (fun _ => settles_enter _) ht
      obtain ⟨ts, hts, hleaves⟩ := allLeaves_of_spells harg hsome
      have hnone' : b.HasType file .none none' := ⟨1, fitsWithin_of_parts rfl 0, hnone⟩
      refine ⟨ts ++ [none'], List.rel_append hts (.cons hnone' .nil), ?_⟩
      rw [allLeaves_of_union (node_of_enter ht), List.flatMap_append, List.flatMap_cons, hleaves]

/-- What is spelled one after another has the leaves of all that is spelled, in order. -/
theorem allLeaves_of_spellsAll {n : Nat} {es leaves : List TypeExpr} {members : List TypeId}
    (h : b.SpellsAll file n es leaves) (hmembers : b.TypedAll n file es members) :
    ∃ ts, List.Forall₂ (b.HasType file) leaves ts ∧
      members.flatMap b.allLeaves = ts.flatMap b.allLeaves := by
  match h, hmembers with
  | .nil, .nil => exact ⟨[], .nil, rfl⟩
  | .cons he hes, .cons hm hms =>
      obtain ⟨ts, hts, hleaves⟩ := allLeaves_of_spells he hm
      obtain ⟨others, hothers, hrest⟩ := allLeaves_of_spellsAll hes hms
      refine ⟨ts ++ others, List.rel_append hts hothers, ?_⟩
      rw [List.flatMap_cons, List.flatMap_append, hleaves, hrest]

end

/-- The forms are three ways to write one type. -/
theorem typeWithin_optional {optional union : String}
    (hoptional : b.IsForm file optional "Optional") (hunion : b.IsForm file union "Union")
    (n : Nat) (e : TypeExpr) :
    b.typeWithin (n + 2) file (.subscript union [e, .none]) =
      b.typeWithin (n + 2) file (.subscript optional [e]) ∧
    b.typeWithin (n + 2) file (.union [e, .none]) =
      b.typeWithin (n + 2) file (.subscript optional [e]) := by
  constructor
  · rw [typeWithin_succ, typeWithin_succ, plan_of_union hunion, plan_of_optional hoptional]
    rfl
  · rw [typeWithin_succ, typeWithin_succ, plan_of_optional hoptional]
    rfl

end Codebase

namespace Project

open Codebase

variable {b : Codebase} {file : FileId} {text other third : String} {t u v : TypeId}

/-- The unions of two annotations that spell the same leaves are flattened to the same types; so
they have the same signature, and are ranked and settled alike. -/
theorem settled_alike_of_spells {leaves : List TypeExpr}
    (ht : (ofCodebase b).GivesType file text t) (hu : (ofCodebase b).GivesType file other u)
    (htext : b.Spells file depthBound (b.annotation text) leaves)
    (hother : b.Spells file depthBound (b.annotation other) leaves) :
    let h := (ofCodebase b).host
    Union.flatten h (Union.membersOf h t) = Union.flatten h (Union.membersOf h u) ∧
    Union.signature h (Union.membersOf h t) = Union.signature h (Union.membersOf h u) ∧
    (∀ c, Union.rank h c (Union.membersOf h t) = Union.rank h c (Union.membersOf h u)) ∧
    ∀ c existing, Union.resolve h c (Union.membersOf h t) existing =
      Union.resolve h c (Union.membersOf h u) existing := by
  intro h
  obtain ⟨ts, hts, hleaves⟩ := allLeaves_of_spells htext (settled_of_givesType ht)
  obtain ⟨us, hus, hleaves'⟩ := allLeaves_of_spells hother (settled_of_givesType hu)
  -- a leaf has one type, at whatever level it stands in the two annotations
  obtain rfl : ts = us := HasType.unique.forall₂ hts hus
  have hsame : b.allLeaves t = b.allLeaves u := hleaves.trans hleaves'.symm
  have hflat : Union.flatten h (Union.membersOf h t) = Union.flatten h (Union.membersOf h u) := by
    rw [Union.flatten_membersOf, Union.flatten_membersOf]
    exact congrArg (dedupBy h.displayName) hsame
  refine ⟨hflat, ?_, fun c => ?_, fun c existing => ?_⟩
  · rw [Union.signature, hflat, ← Union.signature]
  · rw [Union.rank, hflat, ← Union.rank]
  · rw [Union.resolve, hflat, ← Union.resolve]

/-- `Optional[X]`, `Union[X, None]` and `X | None` have the same type, where `X` is read as one
operand. -/
theorem type_eq_of_optional {optional union : String} {e : TypeExpr}
    (hoptional : b.IsForm file optional "Optional") (hunion : b.IsForm file union "Union")
    (ht : (ofCodebase b).GivesType file text t) (hu : (ofCodebase b).GivesType file other u)
    (hv : (ofCodebase b).GivesType file third v)
    (htext : b.annotation text = .subscript optional [e])
    (hother : b.annotation other = .subscript union [e, .none])
    (hthird : b.annotation third = .union [e, .none]) : t = u ∧ t = v := by
  obtain ⟨hforms, halternative⟩ := typeWithin_optional hoptional hunion 15 e
  have ht' := settled_of_givesType ht
  have hu' := settled_of_givesType hu
  have hv' := settled_of_givesType hv
  rw [typeOf, htext] at ht'
  rw [typeOf, hother, depthBound, hforms] at hu'
  rw [typeOf, hthird, depthBound, halternative] at hv'
  exact ⟨congrArg Prod.fst (ht'.symm.trans hu'), congrArg Prod.fst (ht'.symm.trans hv')⟩

/-! ## Annotations on several lines -/

/-- Three parameters with one union: a form around a quoted part, alternatives on one line, and
alternatives on two. -/
def manySpellings : Codebase :=
  Codebase.ofModules .default [SourceModule.ofText "m.py"
    "def f(x: Optional['int|str'], y: int|str|None, z: int|str\n|None): pass\n"]

/-- The types of the three differ, and that of the last one is not even a union. -/
theorem functionAnnotations_manySpellings :
    (ofCodebase manySpellings).functionAnnotations =
      [(⟨0⟩, "Optional['int|str']", ⟨4⟩), (⟨0⟩, "int|str|None", ⟨5⟩),
        (⟨0⟩, "int|str\n|None", ⟨6⟩)] := by
  decide +kernel

/-- The first two spell the same leaves. -/
theorem spells_manySpellings :
    manySpellings.Spells ⟨0⟩ depthBound (manySpellings.annotation "Optional['int|str']")
      [.name "int", .name "str", .none] ∧
    manySpellings.Spells ⟨0⟩ depthBound (manySpellings.annotation "int|str|None")
      [.name "int", .name "str", .none] := by
  have hform : manySpellings.IsForm ⟨0⟩ "Optional" "Optional" := .inr (by decide +kernel)
  obtain ⟨hwhole, hquoted, hline⟩ :
      manySpellings.annotation "Optional['int|str']" =
        .subscript "Optional" [.string "int|str"] ∧
      manySpellings.annotation "int|str" = .union [.name "int", .name "str"] ∧
      manySpellings.annotation "int|str|None" = .union [.name "int", .name "str", .none] := by
    decide +kernel
  obtain ⟨hint, hstr⟩ : (manySpellings.plan ⟨0⟩ (.name "int")).parts = [] ∧
      (manySpellings.plan ⟨0⟩ (.name "str")).parts = [] := by decide +kernel
  have hint' (n : Nat) : manySpellings.Spells ⟨0⟩ (n + 1) (.name "int") [.name "int"] :=
    .leaf (fitsWithin_of_parts hint n)
  have hstr' (n : Nat) : manySpellings.Spells ⟨0⟩ (n + 1) (.name "str") [.name "str"] :=
    .leaf (fitsWithin_of_parts hstr n)
  rw [hwhole, hline]
  constructor
  · show manySpellings.Spells ⟨0⟩ (15 + 1 + 1) _ ([.name "int", .name "str"] ++ [.none])
    refine .optional hform (.quoted ?_)
    rw [hquoted]
    exact .alternation (.cons (hint' 13) (.cons (hstr' 13) .nil))
  · have hnone : manySpellings.Spells ⟨0⟩ 16 .none [.none] := .leaf (fitsWithin_of_parts rfl 15)
    exact .alternation (.cons (hint' 15) (.cons (hstr' 15) (.cons hnone .nil)))

/-- The first two are settled alike. The last one, read as two lines, has another type. -/
theorem names_of_manySpellings :
    let h := (ofCodebase manySpellings).host
    Union.flatten h (Union.membersOf h ⟨4⟩) = Union.flatten h (Union.membersOf h ⟨5⟩) ∧
    Union.names h (Union.membersOf h ⟨5⟩) = ["int", "str", "None"] ∧
    Union.names h (Union.membersOf h ⟨6⟩) = ["?"] := by
  intro h
  have hannotations := functionAnnotations_manySpellings
  have hfirst : (ofCodebase manySpellings).GivesType ⟨0⟩ "Optional['int|str']" ⟨4⟩ :=
    givesType_of_mem (by rw [hannotations]; exact List.mem_cons_self)
  have hsecond : (ofCodebase manySpellings).GivesType ⟨0⟩ "int|str|None" ⟨5⟩ :=
    givesType_of_mem (by rw [hannotations]; exact List.mem_cons_of_mem _ List.mem_cons_self)
  obtain ⟨hspells, hspells'⟩ := spells_manySpellings
  exact ⟨(settled_alike_of_spells hfirst hsecond hspells hspells').1, by decide +kernel⟩

end Project

end CallFill
