import CallFill.Proofs.Typing.Steps

/-!
# What a type is made from

One level of typing, without the levels below: from which other expressions the type of an
expression is made, and how (`TypePlan`). Typing follows the plan (`typeWithin_succ`), so whatever
holds of the six ways to follow one holds of typing. Where no level is missing (`FitsWithin`), more
levels change nothing (`typeWithin_of_fits`).
-/

namespace CallFill

/-- The types a node is built from. -/
def TypeNode.parts : TypeNode → List TypeId
  | .union members => members
  | .collection _ _ elements => elements
  | _ => []

/-- How the type of an expression is made. -/
inductive TypePlan where
  /-- A type of its own, without parts. -/
  | atom (node : TypeNode) (hatom : node.parts = [])
  /-- A type named by a symbol, without parts. -/
  | named (qualifiedName module : String) (kind : SymbolKind) (node : SymbolId → TypeNode)
      (hatom : ∀ symbol, (node symbol).parts = [])
  /-- The type of another expression. -/
  | same (file : FileId) (e : TypeExpr)
  /-- The union of the types of expressions; a single one is no union. -/
  | union (file : FileId) (items : List TypeExpr)
  /-- The union of the type of an expression and `None`. -/
  | optional (file : FileId) (e : TypeExpr)
  /-- A collection of the types of expressions. -/
  | collection (file : FileId) (name : String) (items : List TypeExpr)

namespace TypePlan

/-- A type about which nothing is known. -/
def unknown : TypePlan := .atom .unknown rfl

/-- The expressions whose types are needed, each with its file. -/
def parts : TypePlan → List (FileId × TypeExpr)
  | .atom .. | .named .. => []
  | .same file e | .optional file e => [(file, e)]
  | .union file items | .collection file _ items => items.map (file, ·)

/-- Follows the plan; `inner` gives the types of the parts. -/
def run (inner : FileId → TypeExpr → StateM Tables TypeId) : TypePlan → StateM Tables TypeId
  | .atom node _ => Tables.enter node
  | .named qualifiedName module kind node _ => Tables.enterSymbol qualifiedName module kind node
  | .same file e => inner file e
  | .union file items => Codebase.unionType inner file items
  | .optional file e => do
    let some' ← inner file e
    let none' ← Tables.enter .noneType
    Tables.enter (.union [some', none'])
  | .collection file name items => do
    let elements ← items.mapM (inner file)
    Tables.enter (.collection (CollectionKind.ofName name) name elements)

theorem mapM_congr {f g : TypeExpr → StateM Tables TypeId} {items : List TypeExpr}
    (h : ∀ e ∈ items, f e = g e) : items.mapM f = items.mapM g := by
  induction items with
  | nil => rfl
  | cons e items ih =>
      obtain ⟨he, hitems⟩ := List.forall_mem_cons.1 h
      rw [List.mapM_cons, List.mapM_cons, he, ih hitems]

/-- The type depends on nothing but the types of the parts. -/
theorem run_congr {inner inner' : FileId → TypeExpr → StateM Tables TypeId} {plan : TypePlan}
    (h : ∀ part ∈ plan.parts, inner part.1 part.2 = inner' part.1 part.2) :
    plan.run inner = plan.run inner' := by
  have hitems : ∀ {file : FileId} {items : List TypeExpr},
      (∀ part ∈ items.map (file, ·), inner part.1 part.2 = inner' part.1 part.2) →
      items.mapM (inner file) = items.mapM (inner' file) := by
    intro file items hparts
    exact mapM_congr fun e he => hparts (file, e) (List.mem_map_of_mem he)
  cases plan with
  | atom | named => rfl
  | same file e => exact h (file, e) List.mem_cons_self
  | optional file e => rw [run, run, h (file, e) List.mem_cons_self]
  | union file items => rw [run, run, Codebase.unionType, Codebase.unionType, hitems h]
  | collection file name items => rw [run, run, hitems h]

end TypePlan

namespace Codebase

variable (b : Codebase)

/-! ## The plan of an expression -/

/-- The plan of a form of `typing`; none where the name is no form. -/
def formPlan? (file : FileId) (form : String) (args : List TypeExpr) : Option TypePlan :=
  if form = "Optional" then args.head?.map (.optional file)
  else if form = "Union" then some (.union file args)
  else if transparentForms.contains form then some (args.head?.elim .unknown (.same file))
  else if form = "Literal" then
    some (.atom (.literal ("Literal[" ++ ", ".intercalate (args.map TypeExpr.render) ++ "]")) rfl)
  else if anyForms.contains form then some (.atom (.anyLike form) rfl)
  else if collectionForms.contains form then
    some (.collection file form (args.filter fun a => !a.isEllipsis))
  else none

/-- The plan of a builtin with type arguments. -/
def builtinPlan (file : FileId) (name : String) (args : List TypeExpr) : TypePlan :=
  if args.isEmpty then .named name "builtins" .builtin .builtin fun _ => rfl
  else .collection file name (args.filter fun a => !a.isEllipsis)

/-- The plan of an assigned name. -/
def assignedPlan (id : AssignmentId) : TypePlan :=
  match b.assignment? id with
  | none => .unknown
  | some a =>
    match b.file? a.file with
    | none => .unknown
    | some m =>
      match a.definition.value with
      | .newType _ =>
        .named (Dotted.qualify m.name a.definition.name) m.name .typeAlias .typeAlias fun _ => rfl
      | .expression text =>
        if a.definition.isAlias then .same a.file (b.annotation text) else .unknown
      | .missing => .unknown

/-- The plan of an entity with type arguments. -/
def entityPlan (file : FileId) (args : List TypeExpr) : Option Entity → TypePlan
  | some (.builtin name) => builtinPlan file name args
  | some (.classDef id) =>
    match b.class? id with
    | some c => .atom (.projectClass c.symbol) rfl
    | none => .unknown
  | some (.assignment id) => b.assignedPlan id
  | some (.external qualified) =>
    .named qualified (Dotted.splitQualified qualified).1 .external .external fun _ => rfl
  | some (.function _) | some (.module _) | none => .unknown

/-- The plan of a name with type arguments. -/
def namedPlan (file : FileId) (name : String) (args : List TypeExpr) : TypePlan :=
  let entity := b.resolve file name
  ((formName? name entity).bind fun form => formPlan? file form args).getD
    (b.entityPlan file args entity)

/-- The plan of an expression. -/
def plan (file : FileId) : TypeExpr → TypePlan
  | .none => .atom .noneType rfl
  | .string text => .same file (b.annotation text)
  | .union items => .union file items
  | .name name => b.namedPlan file name []
  | .subscript base args => b.namedPlan file base args
  | .ellipsis | .number _ | .list _ | .other _ | .invalid _ => .unknown

section Run

variable (inner : FileId → TypeExpr → StateM Tables TypeId) (file : FileId)

/-- To type a special form is to run its plan. -/
theorem formType?_eq (form : String) (args : List TypeExpr) :
    formType? inner file form args = (formPlan? file form args).map (TypePlan.run inner) := by
  rw [formType?, formPlan?]
  split
  · rw [Option.map_map]
    rfl
  · split
    · rfl
    · split
      · cases args <;> rfl
      · split
        · rfl
        · split
          · rfl
          · split <;> rfl

/-- To type a builtin name is to run its plan. -/
theorem builtinType_eq (name : String) (args : List TypeExpr) :
    builtinType inner file name args = (builtinPlan file name args).run inner := by
  rw [builtinType, builtinPlan]
  split <;> rfl

/-- To type what is assigned to a name is to run its plan. -/
theorem assignedType_eq (id : AssignmentId) :
    b.assignedType inner id = (b.assignedPlan id).run inner := by
  rw [assignedType, assignedPlan]
  cases b.assignment? id with
  | none => rfl
  | some a =>
      dsimp only
      cases b.file? a.file with
      | none => rfl
      | some m =>
          dsimp only
          cases a.definition.value with
          | newType base => rfl
          | missing => rfl
          | expression text =>
              dsimp only
              split <;> rfl

/-- To type a name is to run its plan, whatever the name stands for. -/
theorem namedType_eq (name : String) (args : List TypeExpr) :
    b.namedType inner file name args = (b.namedPlan file name args).run inner := by
  simp only [namedType, namedPlan]
  generalize b.resolve file name = entity
  have hform : (formName? name entity).bind (fun form => formType? inner file form args) =
      ((formName? name entity).bind fun form => formPlan? file form args).map
        (TypePlan.run inner) := by
    cases formName? name entity with
    | none => rfl
    | some form => exact formType?_eq inner file form args
  rw [hform]
  cases (formName? name entity).bind fun form => formPlan? file form args with
  | some plan => rfl
  | none =>
      cases entity with
      | none => rfl
      | some e =>
          cases e with
          | builtin builtin => exact builtinType_eq inner file builtin args
          | classDef id =>
              show Tables.enter ((b.class? id).elim .unknown fun c => .projectClass c.symbol) =
                (b.entityPlan file args (some (.classDef id))).run inner
              rw [entityPlan]
              cases b.class? id <;> rfl
          | assignment id => exact b.assignedType_eq inner id
          | external qualified => rfl
          | function id => rfl
          | module name => rfl

end Run

/-- Typing follows the plan of the expression. -/
theorem typeWithin_succ (n : Nat) (file : FileId) (e : TypeExpr) :
    b.typeWithin (n + 1) file e = (b.plan file e).run (b.typeWithin n) := by
  cases e with
  | name name => exact b.namedType_eq _ file name []
  | subscript base args => exact b.namedType_eq _ file base args
  | _ => rfl

/-! ## Expressions that fit the bound -/

/-- The type of an expression is found within so many levels: no part of it is left unknown because
the levels ran out. -/
def FitsWithin : Nat → FileId → TypeExpr → Prop
  | 0, _, _ => False
  | n + 1, file, e => ∀ part ∈ (b.plan file e).parts, FitsWithin n part.1 part.2

instance decidableFitsWithin : ∀ n file e, Decidable (b.FitsWithin n file e)
  | 0, _, _ => inferInstanceAs (Decidable False)
  | n + 1, file, e =>
    have := decidableFitsWithin n
    inferInstanceAs (Decidable (∀ part ∈ (b.plan file e).parts, b.FitsWithin n part.1 part.2))

variable {b}

/-- A plan without parts fits within one level. -/
theorem fitsWithin_of_parts {file : FileId} {e : TypeExpr} (h : (b.plan file e).parts = [])
    (n : Nat) : b.FitsWithin (n + 1) file e := by
  intro part hpart
  rw [h] at hpart
  exact absurd hpart List.not_mem_nil

/-- Where no level is missing, more levels change nothing. -/
theorem typeWithin_of_fits {n k : Nat} {file : FileId} {e : TypeExpr} (h : b.FitsWithin n file e)
    (hle : n ≤ k) : b.typeWithin k file e = b.typeWithin n file e := by
  induction n generalizing k file e with
  | zero => exact h.elim
  | succ n ih =>
      obtain ⟨k, rfl⟩ : ∃ j, k = j + 1 := ⟨k - 1, by omega⟩
      rw [typeWithin_succ, typeWithin_succ]
      exact TypePlan.run_congr fun part hpart => ih (h part hpart) (Nat.le_of_succ_le_succ hle)

end Codebase

end CallFill
