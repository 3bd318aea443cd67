import CallFill.Config
import CallFill.Distinct
import CallFill.Host
import CallFill.Union.Evidence

/-!
# Unions

The members of a union are flattened to leaves, told apart by their rendered names. Each leaf is
classified by where it comes from, and only those from the best origin present are kept, ordered by
what they are and then by name. `resolve` settles a union as far as that goes: to a single leaf, to
the leaf an existing expression already shows, or to a choice between at least two leaves.
-/

namespace CallFill

/-- What a member of a union is, the most preferred first. -/
inductive MemberKind where
  | record
  | collection
  | plainClass
  | primitive
  | literal
  | anyLike
  | none
  deriving DecidableEq, Repr

namespace MemberKind

/-- The place of a kind in the order of preference. -/
def rank : MemberKind → Nat
  | .record => 0
  | .collection => 1
  | .plainClass => 2
  | .primitive => 3
  | .literal => 4
  | .anyLike => 5
  | .none => 6

/-- The name of a kind in reports. -/
def name : MemberKind → String
  | .record => "record"
  | .collection => "collection"
  | .plainClass => "class"
  | .primitive => "primitive"
  | .literal => "literal"
  | .anyLike => "any_like"
  | .none => "none"

theorem rank_injective {a b : MemberKind} (h : a.rank = b.rank) : a = b := by
  cases a <;> cases b <;> simp_all [rank]

end MemberKind

/-- A question about one union: the parameter it stands on, the key under which the answer is kept,
and the types to choose from. -/
structure ChoiceRequest where
  parameter : String
  signature : String
  options : List TypeId
  deriving DecidableEq, Repr

namespace Union

/-- How a union is settled. -/
inductive Resolution where
  /-- Only one candidate is left. -/
  | single (type : TypeId)
  /-- The existing expression already shows one of the candidates. -/
  | matched (type : TypeId)
  /-- Two or more candidates are left, in order of preference. -/
  | choice (ranked : List TypeId)
  | unresolved
  deriving DecidableEq, Repr

/-- Unions nested deeper than this are not opened. -/
def maxNesting : Nat := 16

/-- The rendered name of `None`. -/
def noneName : String := "None"

/-- The leaves of a type through at most `n` levels of unions, depth first. -/
def leaves (h : Host) : Nat → TypeId → List TypeId
  | 0, t => if (h.shape t).isUnion then [] else [t]
  | n + 1, t =>
    match (h.shape t).members? with
    | some members => members.flatMap (leaves h n)
    | none => [t]

/-- The leaves of the members, the first of each rendered name. -/
def flatten (h : Host) (members : List TypeId) : List TypeId :=
  dedupBy h.displayName (members.flatMap (leaves h maxNesting))

/-- The rendered names of the leaves, sorted and joined: the same for every order of the members. -/
def signature (h : Host) (members : List TypeId) : String :=
  "|".intercalate (((flatten h members).map h.displayName).mergeSort)

/-- Where a type comes from; a type without a symbol is classified by its shape. -/
def bucketOf (h : Host) (t : TypeId) : Option Bucket :=
  match h.symbolOf t with
  | some s => h.provenance s
  | none =>
    match h.shape t with
    | .noneType | .collection .. | .builtin .. => some .builtin
    | .literal | .anyLike _ => some .standardLibrary
    | _ => none

/-- What a type is, as a member of a union. -/
def kindOf (h : Host) (c : Config) (t : TypeId) : MemberKind :=
  match h.shape t with
  | .record .. => .record
  | .collection _ elements => if elements.isEmpty then .plainClass else .collection
  | .builtin _ name => if c.isPrimitive name then .primitive else .plainClass
  | .plain _ | .typeAlias .. => .plainClass
  | .literal => .literal
  | .noneType => .none
  | .anyLike _ | .union _ | .unknown => .anyLike

/-- Whether one type comes before another: by kind, then by rendered name, then by handle. -/
def precedes (h : Host) (c : Config) (a b : TypeId) : Bool :=
  let ka := (kindOf h c a).rank
  let kb := (kindOf h c b).rank
  let na := h.displayName a
  let nb := h.displayName b
  ka < kb || (ka == kb && (na < nb || (na == nb && a.index ≤ b.index)))

/-- The best bucket of some leaves. -/
def bestBucket? (h : Host) (flat : List TypeId) : Option Nat :=
  (flat.filterMap fun t => (bucketOf h t).map Bucket.rank).min?

/-- The leaves from the best bucket, in order of preference. -/
def rankFlat (h : Host) (c : Config) (flat : List TypeId) : List TypeId :=
  match bestBucket? h flat with
  | none => []
  | some best =>
    (flat.filter fun t => (bucketOf h t).map Bucket.rank = some best).mergeSort (precedes h c)

/-- The members' leaves from the best bucket, in order of preference. -/
def rank (h : Host) (c : Config) (members : List TypeId) : List TypeId :=
  rankFlat h c (flatten h members)

/-- The first ranked type that is not `None`, or else the first. -/
def defaultPick (h : Host) (ranked : List TypeId) : Option TypeId :=
  match ranked.find? fun t => !h.isNone t with
  | some t => some t
  | none => ranked.head?

/-- The name by which an expression refers to a type. -/
def shortName (h : Host) (t : TypeId) : String :=
  match h.shape t with
  | .builtin _ name | .typeAlias _ name => name
  | .collection .. => String.ofList ((h.displayName t).toList.takeWhile (· != '['))
  | _ =>
    match (h.symbolOf t).bind h.symbol with
    | some s => s.name
    | none => Dotted.last (h.displayName t)

/-- Whether the trimmed text of an expression shows a value of the type. -/
def expressionIs (h : Host) (text : List Char) (t : TypeId) : Bool :=
  if h.isNone t then text == noneName.toList else Evidence.shows text (shortName h t)

/-- The first candidate of which the text shows a value. -/
def matchesExisting (h : Host) (text : String) (candidates : List TypeId) : Option TypeId :=
  let text := Text.trim text.toList
  if text.isEmpty then none else candidates.find? (expressionIs h text)

/-- Settles a union whose leaves are given. -/
def resolveFlat (h : Host) (c : Config) (flat : List TypeId) (existing : Option String) :
    Resolution :=
  match flat with
  | [] => .unresolved
  | [only] => .single only
  | _ =>
    let ranked := rankFlat h c flat
    if ranked.isEmpty then
      match existing.bind (matchesExisting h · flat) with
      | some t => .matched t
      | none => .unresolved
    else
      match existing.bind (matchesExisting h · ranked) with
      | some t => .matched t
      | none =>
        if 2 ≤ (ranked.filter fun t => !h.isNone t).length then .choice ranked
        else
          match defaultPick h ranked with
          | some t => .single t
          | none => .unresolved

/-- Settles a union, as far as its members and the existing expression go. -/
def resolve (h : Host) (c : Config) (members : List TypeId) (existing : Option String) :
    Resolution :=
  resolveFlat h c (flatten h members) existing

/-- The question to ask about a parameter's union, if it is ambiguous. -/
def request (h : Host) (c : Config) (parameter : String) (members : List TypeId)
    (existing : Option String) : Option ChoiceRequest :=
  match resolve h c members existing with
  | .choice options => some { parameter, signature := signature h members, options }
  | _ => none

end Union

end CallFill
