import CallFill.Scope

/-!
# Blocks and the names visible in them

Which names can be seen from a part of a module is a matter of its blocks: the module, the bodies of
classes and functions, lambdas and comprehensions. The first iterable of a comprehension, the
defaults of parameters, base classes and decorators stand in the block around. A name is bound in
the block that the binding stands in, but for an assignment expression, whose name goes through the
comprehensions around it; parameters are bound in the block of their function. What is bound in the
body of a class is seen from there only, what is bound in any other block also from all blocks
inside it (`Outline.Visible`).

Which names an import statement binds is taken from its reading. Names that are declared `global` or
`nonlocal` are seen wherever a block of their own would show them, so the declarations are left out,
and so is what the patterns of a `match` statement capture.
-/

namespace CallFill.Source.SyntaxTree

/-- Whether the tree is a comprehension. -/
def isComprehension (t : SyntaxTree) : Bool :=
  (t.kind = .display || t.kind = .generatorExpression) &&
    t.children.any fun c => c.kind = .forInClause

/-- Whether the tree is a block inside an expression. -/
def isInline (t : SyntaxTree) : Bool :=
  t.kind = .lambda || t.isComprehension

/-- Whether the clause is the first one of a comprehension. -/
def isFirstClauseOf (clause t : SyntaxTree) : Bool :=
  t.isComprehension &&
    (t.children.find? fun c => c.kind = .forInClause).any fun c => c.start = clause.start

/-- The blocks around a part of a tree, the innermost first, where `blocks` are those around the
tree. A block is given by the tree that it is the block of. -/
def blocksOf (blocks : List SyntaxTree) (t part : SyntaxTree) : List SyntaxTree :=
  match t.kind with
  | .functionDefinition | .classDefinition =>
    if part.role = some .body then t :: blocks else blocks
  | .lambda => if part.kind = .parameters then blocks else t :: blocks
  | .forInClause =>
    -- the first iterable is evaluated outside of the comprehension
    if part.role ≠ some .left ∧ blocks.head?.any t.isFirstClauseOf then blocks.tail else blocks
  | _ => if t.isComprehension then t :: blocks else blocks

/-- A part of a module's tree and the blocks that it stands in. -/
inductive Stands (root : SyntaxTree) : List SyntaxTree → SyntaxTree → Prop where
  | root : Stands root [root] root
  | part {blocks : List SyntaxTree} {t c : SyntaxTree} :
      Stands root blocks t → c ∈ t.children → Stands root (blocksOf blocks t c) c
  /-- The parameters of a function stand around it. -/
  | parameter {blocks : List SyntaxTree} {t c d : SyntaxTree} :
      Stands root blocks t → t.kind = .functionDefinition → c ∈ t.children →
      c.role = some .parameters → d ∈ c.children → Stands root blocks d

/-- The blocks from the innermost on that is no block inside an expression. -/
def bodies (blocks : List SyntaxTree) : List SyntaxTree :=
  blocks.dropWhile isInline

mutual

/-- The parts of a tree with the blocks that they stand in. -/
def standing (blocks : List SyntaxTree) : SyntaxTree → List (List SyntaxTree × SyntaxTree)
  | node kind role start stop children =>
    (blocks, node kind role start stop children) ::
      standingAmong blocks (node kind role start stop children) children

/-- The parts of some parts of a tree with the blocks that they stand in. -/
def standingAmong (blocks : List SyntaxTree) (t : SyntaxTree) :
    List SyntaxTree → List (List SyntaxTree × SyntaxTree)
  | [] => []
  | c :: cs => standing (blocksOf blocks t c) c ++ standingAmong blocks t cs

end

/-- A tree stands in the blocks around it. -/
theorem self_mem_standing (blocks : List SyntaxTree) (t : SyntaxTree) :
    (blocks, t) ∈ standing blocks t := by
  cases t with
  | node kind role start stop children =>
      rw [standing]
      exact List.mem_cons_self

/-- What stands in a tree stands among the trees it is one of. -/
theorem mem_standingAmong {blocks : List SyntaxTree} {t c : SyntaxTree} {cs : List SyntaxTree}
    (hc : c ∈ cs) {p : List SyntaxTree × SyntaxTree} (hp : p ∈ standing (blocksOf blocks t c) c) :
    p ∈ standingAmong blocks t cs := by
  induction cs with
  | nil => exact absurd hc List.not_mem_nil
  | cons d cs ih =>
      rw [standingAmong]
      rcases List.mem_cons.1 hc with rfl | hc
      · exact List.mem_append_left _ hp
      · exact List.mem_append_right _ (ih hc)

mutual

/-- What stands in a part of a tree stands in the tree. -/
theorem child_mem_standing {blocks outer : List SyntaxTree} {t u c : SyntaxTree}
    (ht : (blocks, t) ∈ standing outer u) (hc : c ∈ t.children) :
    (blocksOf blocks t c, c) ∈ standing outer u := by
  cases u with
  | node kind role start stop children =>
      rw [standing] at ht ⊢
      rcases List.mem_cons.1 ht with hself | hinside
      · obtain ⟨rfl, rfl⟩ := Prod.mk.inj hself
        exact List.mem_cons_of_mem _ (mem_standingAmong hc (self_mem_standing _ c))
      · exact List.mem_cons_of_mem _ (child_mem_standingAmong hinside hc)

/-- A part of what stands among trees stands there, one block further in. -/
theorem child_mem_standingAmong {blocks outer : List SyntaxTree} {parent t c : SyntaxTree}
    {us : List SyntaxTree} (ht : (blocks, t) ∈ standingAmong outer parent us)
    (hc : c ∈ t.children) : (blocksOf blocks t c, c) ∈ standingAmong outer parent us := by
  cases us with
  | nil => exact absurd ht List.not_mem_nil
  | cons u us =>
      rw [standingAmong] at ht ⊢
      rcases List.mem_append.1 ht with hfirst | hrest
      · exact List.mem_append_left _ (child_mem_standing hfirst hc)
      · exact List.mem_append_right _ (child_mem_standingAmong hrest hc)

end

/-- Where only lists of parameters are in this role, all parts that stand somewhere are listed. -/
theorem Stands.mem_standing {root t : SyntaxTree} {blocks : List SyntaxTree}
    (hlists : ∀ p ∈ standing [root] root, p.2.role = some .parameters → p.2.kind = .parameters)
    (h : Stands root blocks t) : (blocks, t) ∈ standing [root] root := by
  induction h with
  | root => exact self_mem_standing _ _
  | part _ hc ih => exact child_mem_standing ih hc
  | @parameter blocks t c d _ hfunction hc hrole hd ih =>
      have hlist : (blocksOf blocks t c, c) ∈ standing [root] root := child_mem_standing ih hc
      have hkind : c.kind = .parameters := hlists _ hlist hrole
      have hparameter := child_mem_standing hlist hd
      have houtside : blocksOf (blocksOf blocks t c) c d = blocks := by
        simp [blocksOf, hfunction, hrole, hkind, isComprehension]
      rwa [houtside] at hparameter

/-- Only the body of a class or function stands in its block. -/
theorem blocksOf_definition {blocks : List SyntaxTree} {t : SyntaxTree} (c : SyntaxTree)
    (h : t.kind = .functionDefinition ∨ t.kind = .classDefinition) :
    blocksOf blocks t c = if c.role = some .body then t :: blocks else blocks := by
  rcases h with hkind | hkind
  · rw [blocksOf, hkind]
  · rw [blocksOf, hkind]

/-- A class or function is no block inside an expression. -/
theorem isInline_definition {t : SyntaxTree}
    (h : t.kind = .functionDefinition ∨ t.kind = .classDefinition) : ¬ t.isInline = true := by
  rcases h with hkind | hkind
  · simp [isInline, isComprehension, hkind]
  · simp [isInline, isComprehension, hkind]

/-- The blocks around a part are those around the tree, and the tree. -/
theorem mem_of_mem_blocksOf {blocks : List SyntaxTree} {t c b : SyntaxTree}
    (h : b ∈ blocksOf blocks t c) : b = t ∨ b ∈ blocks := by
  rw [blocksOf] at h
  split at h
  · split at h
    · exact List.mem_cons.1 h
    · exact Or.inr h
  · split at h
    · exact List.mem_cons.1 h
    · exact Or.inr h
  · split at h
    · exact Or.inr h
    · exact List.mem_cons.1 h
  · split at h
    · exact Or.inr (List.mem_of_mem_tail h)
    · exact Or.inr h
  · split at h
    · exact List.mem_cons.1 h
    · exact Or.inr h

/-- The blocks that a part stands in are parts themselves. -/
theorem Stands.exists_of_mem {root t b : SyntaxTree} {blocks : List SyntaxTree}
    (h : Stands root blocks t) (hb : b ∈ blocks) : ∃ outer, Stands root outer b := by
  induction h with
  | root =>
      rw [List.mem_singleton.1 hb]
      exact ⟨[root], .root⟩
  | @part blocks t c ht _ ih =>
      rcases mem_of_mem_blocksOf hb with rfl | hb
      · exact ⟨blocks, ht⟩
      · exact ih hb
  | parameter _ _ _ _ _ ih => exact ih hb

/-- What is no class or function adds only blocks inside expressions. -/
theorem bodies_blocksOf {blocks : List SyntaxTree} {t c : SyntaxTree}
    (hfunction : t.kind ≠ .functionDefinition) (hclass : t.kind ≠ .classDefinition) :
    bodies (blocksOf blocks t c) = bodies blocks := by
  have hinline : t.isInline = true → bodies (t :: blocks) = bodies blocks := by
    intro hinline
    rw [bodies, List.dropWhile_cons_of_pos hinline]
    rfl
  rw [blocksOf]
  split
  · contradiction
  · contradiction
  · next hlambda =>
      split
      · rfl
      · exact hinline (by simp [isInline, hlambda])
  · split
    · next hfirst =>
        -- the block left is the comprehension
        cases blocks with
        | nil => rfl
        | cons b outer =>
            have hb : b.isComprehension = true := (Bool.and_eq_true_iff.1 hfirst.2).1
            rw [List.tail_cons, bodies, bodies, List.dropWhile_cons_of_pos (by simp [isInline, hb])]
    · rfl
  · split
    · next hcomprehension => exact hinline (by simp [isInline, hcomprehension])
    · rfl

end CallFill.Source.SyntaxTree

namespace CallFill.Outline

open Source SyntaxTree

variable (source : List Char)

/-- The names that a tree itself binds. -/
def binder (t : SyntaxTree) : List String :=
  match t.kind with
  | .functionDefinition => ((t.child? .name).map (SyntaxTree.text source)).toList
  | .classDefinition => [(t.child? .name).elim "" (SyntaxTree.text source)]
  | .importStatement | .fromImport => (Definition.imports source t).map Import.boundName
  | _ => (target? t).elim [] (targetNames source)

/-- A statement that is no definition and no import binds the names of its target. -/
theorem binder_of_target {source : List Char} {t : SyntaxTree}
    (hfunction : t.kind ≠ .functionDefinition) (hclass : t.kind ≠ .classDefinition)
    (himport : t.kind ≠ .importStatement) (hfrom : t.kind ≠ .fromImport) :
    binder source t = (target? t).elim [] (targetNames source) := by
  rw [binder]
  split
  · contradiction
  · contradiction
  · contradiction
  · contradiction
  · rfl

/-- The names of the parameters of a function or lambda. -/
def parameterNames (t : SyntaxTree) : List String :=
  if t.kind = .functionDefinition || t.kind = .lambda then
    (t.children.filter fun c => c.role = some .parameters || c.kind = .parameters).flatMap
      fun c => c.children.filterMap (parameterName? source)
  else []

/-- The blocks around a tree from the one on that it binds its names in. -/
def bindingBlocks (blocks : List SyntaxTree) (t : SyntaxTree) : List SyntaxTree :=
  if t.kind = .namedExpression then blocks.dropWhile isComprehension else blocks

/-- The name is bound in a block of the module. -/
def Binds (root block : SyntaxTree) (name : String) : Prop :=
  name ∈ parameterNames source block ∨
    ∃ blocks t, Stands root blocks t ∧ (bindingBlocks blocks t).head? = some block ∧
      name ∈ binder source t

/-- A block does not bind a name that is no parameter of it and that is bound in blocks of other
kinds only. -/
theorem not_binds {source : List Char} {root block : SyntaxTree} {name : String}
    (hlists : ∀ p ∈ standing [root] root, p.2.role = some .parameters → p.2.kind = .parameters)
    (hparameters : name ∉ parameterNames source block)
    (hbinders : ∀ p ∈ standing [root] root, name ∈ binder source p.2 →
      (bindingBlocks p.1 p.2).head?.map kind ≠ some block.kind) :
    ¬ Binds source root block name := by
  rintro (hparameter | ⟨blocks, t, ht, hblock, hname⟩)
  · exact hparameters hparameter
  · refine hbinders (blocks, t) (ht.mem_standing hlists) hname ?_
    rw [hblock]
    rfl

/-- The name is seen from a place with these blocks around it: the innermost one binds it, or one
further out that is not the body of a class. -/
def Visible (root : SyntaxTree) (name : String) : List SyntaxTree → Prop
  | [] => False
  | block :: outer =>
    Binds source root block name ∨
      ∃ b ∈ outer, b.kind ≠ .classDefinition ∧ Binds source root b name

end CallFill.Outline
