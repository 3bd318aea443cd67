import CallFill.Proofs.Scope.BlockScopes
import CallFill.Proofs.Scope.ClassPath
import CallFill.Proofs.Source.Layout
import Mathlib.Logic.Relation

/-!
# The steps of a walk

A walk over a module binds names, enters the bodies of classes and functions, and records calls, one
after the other (`Outline.Step`). At each step it is at a tree, in the scope of the blocks that the
tree stands in, and carries the path of the class around it (`Outline.LiesIn`). That a walk is made
of such steps is the one induction over its recursion (`Outline.exists_steps_ofTree`). Whatever each
step keeps then holds of the outline of a module (`Outline.ofTree_of_step`): its scopes are those of
blocks (`Outline.fits_ofTree`), and its calls are recorded with the path of the class that they
stand in (`Outline.named_ofTree`).
-/

namespace CallFill.Source.SyntaxTree

/-- What stands in blocks of a tree is a part of it. -/
theorem Stands.isPart {root t : SyntaxTree} {blocks : List SyntaxTree} (h : Stands root blocks t) :
    IsPart t root := by
  induction h with
  | root => exact .self root
  | part _ hc ih => exact IsPart.trans (.inside hc (.self _)) ih
  | parameter _ _ hc _ hd ih => exact IsPart.trans (.inside hc (.inside hd (.self _))) ih

/-- Every part of what stands in a tree stands in it as well. -/
theorem IsPart.exists_mem_standing {blocks outer : List SyntaxTree} {t u v : SyntaxTree}
    (hv : IsPart v t) (ht : (blocks, t) ∈ standing outer u) : ∃ p ∈ standing outer u, p.2 = v := by
  induction hv generalizing blocks with
  | self => exact ⟨_, ht, rfl⟩
  | inside hc _ ih => exact ih (child_mem_standing ht hc)

end CallFill.Source.SyntaxTree

namespace CallFill.Outline

open Source SyntaxTree

/-- What a walk has found, and the blocks of each scope. -/
structure WalkState where
  outline : Outline
  chains : List (List SyntaxTree)

/-- The walk is in these blocks: its scope is that of the innermost one that has a scope, and it
carries the path of the innermost class. -/
structure LiesIn (source : List Char) (chains : List (List SyntaxTree)) (here : Place)
    (blocks : List SyntaxTree) : Prop where
  scope : chains[here.scope]? = some (bodies blocks)
  enclosingClass : here.enclosingClass = classPath source blocks

/-- One step of a walk over the tree `root`, at a part of it. -/
inductive Step (source : List Char) (root : SyntaxTree) : WalkState → WalkState → Prop where
  | bind {w : WalkState} {here : Place} {blocks : List SyntaxTree} {t : SyntaxTree}
      {name : String} :
      Stands root blocks t → LiesIn source w.chains here blocks → name ∈ binder source t →
      Step source root w ⟨w.outline.bind here.scope name, w.chains⟩
  | bindImport {w : WalkState} {here : Place} {blocks : List SyntaxTree} {t : SyntaxTree}
      {i : Import} :
      Stands root blocks t → LiesIn source w.chains here blocks →
      t.kind = .importStatement ∨ t.kind = .fromImport → i ∈ Definition.imports source t →
      Step source root w ⟨w.outline.bindImport here.scope i, w.chains⟩
  /-- Parameters are bound in the body of their function. -/
  | bindParameter {w : WalkState} {scope : Nat} {blocks : List SyntaxTree} {t : SyntaxTree}
      {name : String} :
      w.chains[scope]? = some (t :: blocks) → name ∈ parameterNames source t →
      Step source root w ⟨w.outline.bindParameter scope name, w.chains⟩
  | enterFunction {w : WalkState} {here : Place} {blocks : List SyntaxTree} {t : SyntaxTree} :
      Stands root blocks t → LiesIn source w.chains here blocks → t.kind = .functionDefinition →
      Step source root w
        ⟨w.outline.enter .functionBody here.scope, w.chains ++ [t :: blocks]⟩
  | enterClass {w : WalkState} {here : Place} {blocks : List SyntaxTree} {t : SyntaxTree} :
      Stands root blocks t → LiesIn source w.chains here blocks → t.kind = .classDefinition →
      Step source root w
        ⟨w.outline.enter .classBody here.scope, w.chains ++ [t :: blocks]⟩
  | recordCall {w : WalkState} {here : Place} {blocks : List SyntaxTree} {t : SyntaxTree} :
      Stands root blocks t → LiesIn source w.chains here blocks → t.kind = .call →
      Step source root w ⟨recordCall source here t w.outline, w.chains⟩

/-- Steps of a walk, one after the other. -/
def Steps (source : List Char) (root : SyntaxTree) : WalkState → WalkState → Prop :=
  Relation.ReflTransGen (Step source root)

variable {source : List Char} {root t c : SyntaxTree} {chains : List (List SyntaxTree)}
  {blocks blocks' ts : List SyntaxTree} {w w' w'' : WalkState} {o : Outline} {here inner : Place}

/-! ## What a step keeps -/

/-- The scopes of an outline stay those of blocks. -/
theorem Step.fits (hstep : Step source root w w') (h : Fits source root w.chains w.outline) :
    Fits source root w'.chains w'.outline := by
  -- the scope of a tree collects what the tree binds
  have hcollects : ∀ {here : Place} {blocks : List SyntaxTree} {t : SyntaxTree},
      Stands root blocks t → LiesIn source w.chains here blocks → ∃ block outer,
        w.chains[here.scope]? = some (block :: outer) ∧
          ∀ name ∈ binder source t, Collects source root block name := by
    intro here blocks t ht hhere
    obtain ⟨block, outer, hbodies⟩ := h.exists_block hhere.scope
    refine ⟨block, outer, hbodies ▸ hhere.scope, fun name hname => ?_⟩
    exact Or.inr ⟨blocks, t, ht, congrArg List.head? hbodies, hname⟩
  cases hstep with
  | bind ht hhere hname =>
      obtain ⟨block, outer, hscope, hbinds⟩ := hcollects ht hhere
      exact h.bind hscope (hbinds _ hname)
  | @bindImport _ _ t i ht hhere hkind hi =>
      obtain ⟨block, outer, hscope, hbinds⟩ := hcollects ht hhere
      refine h.bindImport hscope (hbinds _ ?_)
      rcases hkind with hkind | hkind
      · rw [binder, hkind]
        exact List.mem_map_of_mem hi
      · rw [binder, hkind]
        exact List.mem_map_of_mem hi
  | bindParameter hscope hname => exact h.bindParameter hscope (Or.inl hname)
  | enterFunction ht hhere hkind => exact h.enter hhere.scope (by simp [hkind])
  | enterClass ht hhere hkind => exact h.enter hhere.scope (by simp [hkind])
  | recordCall ht hhere hkind => exact h.recordCall ht hkind hhere.scope

/-- Scopes keep their blocks. -/
theorem Step.chains_grow (hstep : Step source root w w') : w.chains <+: w'.chains := by
  cases hstep with
  | bind _ _ _ => exact List.prefix_rfl
  | bindImport _ _ _ _ => exact List.prefix_rfl
  | bindParameter _ _ => exact List.prefix_rfl
  | enterFunction _ _ _ => exact List.prefix_append _ _
  | enterClass _ _ _ => exact List.prefix_append _ _
  | recordCall _ _ _ => exact List.prefix_rfl

theorem Steps.tail (h : Steps source root w w') (hstep : Step source root w' w'') :
    Steps source root w w'' :=
  Relation.ReflTransGen.tail h hstep

theorem Steps.trans (h : Steps source root w w') (h' : Steps source root w' w'') :
    Steps source root w w'' :=
  Relation.ReflTransGen.trans h h'

/-- Steps keep the outline fitting. -/
theorem Steps.fits (h : Steps source root w w') (hw : Fits source root w.chains w.outline) :
    Fits source root w'.chains w'.outline := by
  induction h with
  | refl => exact hw
  | tail _ hstep ih => exact hstep.fits ih

/-- Steps only add to the scopes entered. -/
theorem Steps.chains_grow (h : Steps source root w w') : w.chains <+: w'.chains := by
  induction h with
  | refl => exact List.prefix_rfl
  | tail _ hstep ih => exact ih.trans hstep.chains_grow

/-! ## Where the walk is -/

theorem getElem?_of_begins {α : Type} {as bs : List α} {k : Nat} {a : α} (h : as <+: bs)
    (hk : as[k]? = some a) : bs[k]? = some a := by
  obtain ⟨more, rfl⟩ := h
  exact getElem?_append_of_some hk

/-- A place lies in the same blocks after further steps. -/
theorem LiesIn.mono (h : LiesIn source w.chains here blocks) (hsteps : Steps source root w w') :
    LiesIn source w'.chains here blocks :=
  ⟨getElem?_of_begins hsteps.chains_grow h.scope, h.enclosingClass⟩

/-- Blocks inside expressions change neither the scope nor the class. -/
theorem LiesIn.of_bodies_eq (h : LiesIn source chains here blocks)
    (hbodies : bodies blocks' = bodies blocks) : LiesIn source chains here blocks' where
  scope := hbodies ▸ h.scope
  enclosingClass := by rw [h.enclosingClass, ← classPath_bodies, ← hbodies, classPath_bodies]

/-- A class or function has a scope. -/
theorem bodies_definition (ht : t.kind = .functionDefinition ∨ t.kind = .classDefinition)
    (blocks : List SyntaxTree) : bodies (t :: blocks) = t :: blocks := by
  rw [bodies, List.dropWhile_cons_of_neg (isInline_definition ht)]

/-- The module is its own only body. -/
theorem bodies_module (hroot : root.kind = .module) : bodies [root] = [root] := by
  rw [bodies, List.dropWhile_cons_of_neg (by simp [isInline, isComprehension, hroot])]

/-- In the body of a function the class around is the same. -/
theorem LiesIn.function (h : LiesIn source chains here blocks) (ho : Fits source root chains o)
    (ht : t.kind = .functionDefinition) :
    LiesIn source (chains ++ [t :: blocks]) { here with scope := o.scopes.length }
      (t :: blocks) where
  scope := by
    rw [bodies_definition (Or.inl ht)]
    exact ho.next _
  enclosingClass := by
    rw [classPath_cons_of_ne (by simp [ht])]
    exact h.enclosingClass

/-- The body of a class has the path of the class. -/
theorem LiesIn.class (h : LiesIn source chains here blocks) (ho : Fits source root chains o)
    (ht : t.kind = .classDefinition) :
    LiesIn source (chains ++ [t :: blocks]) (classPlace here (className source t) o)
      (t :: blocks) where
  scope := by
    rw [bodies_definition (Or.inr ht)]
    exact ho.next _
  enclosingClass := by
    have hkind := ho.kindOf_eq_iff h.scope
    rw [classPlace, classPath, if_pos ht, h.enclosingClass]
    dsimp only
    by_cases hclass : (bodies blocks).head?.map kind = some .classDefinition
    · rw [hkind.2 hclass, hclass]
      cases classPath source blocks <;> rfl
    · split
      · next hbody => exact absurd (hkind.1 hbody) hclass
      · split
        · next hbody => exact absurd hbody hclass
        · rfl

/-- The walk is at a part of the module. -/
def IsAt (source : List Char) (root : SyntaxTree) (chains : List (List SyntaxTree)) (here : Place)
    (t : SyntaxTree) : Prop :=
  ∃ blocks, Stands root blocks t ∧ LiesIn source chains here blocks

/-- A tree is at the same place after further steps. -/
theorem IsAt.mono (h : IsAt source root w.chains here t) (hsteps : Steps source root w w') :
    IsAt source root w'.chains here t := by
  obtain ⟨blocks, ht, hhere⟩ := h
  exact ⟨blocks, ht, hhere.mono hsteps⟩

/-- The parts of a tree that is neither a function nor a class are at its place. -/
theorem IsAt.child (h : IsAt source root chains here t) (hfunction : t.kind ≠ .functionDefinition)
    (hclass : t.kind ≠ .classDefinition) (hc : c ∈ t.children) :
    IsAt source root chains here c := by
  obtain ⟨blocks, ht, hhere⟩ := h
  exact ⟨_, ht.part hc, hhere.of_bodies_eq (bodies_blocksOf hfunction hclass)⟩

section Definition

variable (ht : Stands root blocks t) (hc : c ∈ t.children)

include ht hc

/-- The body of a class or function stands in its own block. -/
theorem stands_body (hkind : t.kind = .functionDefinition ∨ t.kind = .classDefinition)
    (hrole : c.role = some .body) : Stands root (t :: blocks) c := by
  have hpart := ht.part hc
  rwa [blocksOf_definition c hkind, if_pos hrole] at hpart

/-- All else of a class or function stands in the blocks around it. -/
theorem stands_head (hkind : t.kind = .functionDefinition ∨ t.kind = .classDefinition)
    (hrole : c.role ≠ some .body) : Stands root blocks c := by
  have hpart := ht.part hc
  rwa [blocksOf_definition c hkind, if_neg hrole] at hpart

/-- The parameters of a function stand around it and are its own. -/
theorem stands_parameter (source : List Char) (hkind : t.kind = .functionDefinition)
    (hrole : c.role = some .parameters) {d : SyntaxTree} (hd : d ∈ c.children) :
    Stands root blocks d ∧
      ∀ name, parameterName? source d = some name → name ∈ parameterNames source t := by
  refine ⟨ht.parameter hkind hc hrole hd, fun name hname => ?_⟩
  rw [parameterNames, if_pos (by simp [hkind]), List.mem_flatMap]
  exact ⟨c, List.mem_filter.2 ⟨hc, by simp [hrole]⟩, List.mem_filterMap.2 ⟨d, hd, hname⟩⟩

end Definition

/-! ## The walk, kind by kind -/

/-- What is done with the first part in a role. -/
theorem eq_elim_find? {f : List SyntaxTree → Outline} {g : SyntaxTree → Outline} {r : Role}
    (hnil : f [] = o) (hcons : ∀ t ts, f (t :: ts) = if t.role = some r then g t else f ts)
    (ts : List SyntaxTree) : f ts = (ts.find? fun t => t.role = some r).elim o g := by
  induction ts with
  | nil => exact hnil
  | cons t ts ih =>
      rw [hcons]
      split
      · next hrole => rw [List.find?_cons_of_pos (by simpa using hrole), Option.elim_some]
      · next hrole => rw [List.find?_cons_of_neg (by simpa using hrole), ih]

/-- The walk goes through the first part in the role of a body. -/
theorem walkBody_eq (inner : Place) (o : Outline) (ts : List SyntaxTree) :
    walkBody source inner o ts =
      (ts.find? fun t => t.role = some .body).elim o (walk source inner o) :=
  eq_elim_find? rfl (fun _ _ => by rw [walkBody]) ts

theorem walkBases_eq (here : Place) (o : Outline) (ts : List SyntaxTree) :
    walkBases source here o ts =
      (ts.find? fun t => t.role = some .superclasses).elim o (walk source here o) :=
  eq_elim_find? rfl (fun _ _ => by rw [walkBases]) ts

theorem walkValue_eq (here : Place) (o : Outline) (ts : List SyntaxTree) :
    walkValue source here o ts =
      (ts.find? fun t => t.role = some .value).elim o (walk source here o) :=
  eq_elim_find? rfl (fun _ _ => by rw [walkValue]) ts

theorem walkDefaults_eq (here inner : Place) (o : Outline) (ts : List SyntaxTree) :
    walkDefaults source here inner o ts =
      (ts.find? fun t => t.role = some .parameters).elim o
        fun t => walkParameters source here inner o t.children :=
  eq_elim_find? rfl (fun t _ => by cases t; rw [walkDefaults]; rfl) ts

/-- A function binds its name, is entered with its parameters, and its body is walked inside. -/
theorem walk_function (here : Place) (o : Outline) (ht : t.kind = .functionDefinition)
    {bound : Outline} (hbound : o.bindAll here.scope (binder source t) = bound) :
    walk source here o t =
      walkBody source { here with scope := bound.scopes.length }
        (walkDefaults source here { here with scope := bound.scopes.length }
          (bound.enter .functionBody here.scope) t.children) t.children := by
  cases t with
  | node kind role start stop children =>
      obtain rfl : kind = .functionDefinition := ht
      subst hbound
      unfold walk
      dsimp only [binder, SyntaxTree.kind]
      split
      · next hname =>
          rw [hname]
          rfl
      · next hname =>
          rw [hname]
          rfl

/-- A class binds its name, its bases are walked outside of it, and its body inside. -/
theorem walk_class (here : Place) (o : Outline) (ht : t.kind = .classDefinition)
    {based : Outline}
    (hbased : walkBases source here (o.bindAll here.scope (binder source t)) t.children = based) :
    walk source here o t =
      walkBody source (classPlace here (className source t) based)
        (based.enter .classBody here.scope) t.children := by
  cases t with
  | node kind role start stop children =>
      obtain rfl : kind = .classDefinition := ht
      subst hbased
      unfold walk
      rfl

/-- An import binds its names, and nothing in it is walked. -/
theorem walk_import (here : Place) (o : Outline)
    (ht : t.kind = .importStatement ∨ t.kind = .fromImport) :
    walk source here o t =
      (Definition.imports source t).foldl (fun o i => o.bindImport here.scope i) o := by
  cases t with
  | node kind role start stop children =>
      obtain (rfl : kind = .importStatement) | (rfl : kind = .fromImport) := ht
      · unfold walk
        rfl
      · unfold walk
        rfl

/-- A call is recorded before those inside of it. -/
theorem walk_call (here : Place) (o : Outline) (ht : t.kind = .call) :
    walk source here o t = walkAll source here (recordCall source here t o) t.children := by
  cases t with
  | node kind role start stop children =>
      obtain rfl : kind = .call := ht
      unfold walk
      rfl

/-- Any other tree binds its names and is walked part by part. -/
theorem walk_other (here : Place) (o : Outline) (hfunction : t.kind ≠ .functionDefinition)
    (hclass : t.kind ≠ .classDefinition) (himport : t.kind ≠ .importStatement)
    (hfrom : t.kind ≠ .fromImport) (hcall : t.kind ≠ .call) :
    walk source here o t =
      walkAll source here (o.bindAll here.scope (binder source t)) t.children := by
  rw [binder_of_target hfunction hclass himport hfrom]
  cases t with
  | node kind role start stop children =>
      unfold walk
      dsimp only
      split
      · contradiction
      · contradiction
      · contradiction
      · contradiction
      · contradiction
      · rfl

/-! ## The walk is made of steps -/

/-- Binding the names that a tree binds is a number of steps. -/
theorem steps_bindAll {names : List String} (ht : Stands root blocks t)
    (hhere : LiesIn source w.chains here blocks) (hnames : ∀ name ∈ names, name ∈ binder source t) :
    Steps source root w ⟨w.outline.bindAll here.scope names, w.chains⟩ := by
  induction names generalizing w with
  | nil => exact .refl
  | cons name names ih =>
      obtain ⟨hname, hnames⟩ := List.forall_mem_cons.1 hnames
      exact .head (.bind ht hhere hname) (ih hhere hnames)

theorem steps_bindImports {imports : List Import} (ht : Stands root blocks t)
    (hhere : LiesIn source w.chains here blocks)
    (hkind : t.kind = .importStatement ∨ t.kind = .fromImport)
    (himports : ∀ i ∈ imports, i ∈ Definition.imports source t) :
    Steps source root w
      ⟨imports.foldl (fun o i => o.bindImport here.scope i) w.outline, w.chains⟩ := by
  induction imports generalizing w with
  | nil => exact .refl
  | cons i imports ih =>
      obtain ⟨hi, himports⟩ := List.forall_mem_cons.1 himports
      exact .head (.bindImport ht hhere hkind hi) (ih hhere himports)

/-- Steps lead to the outline, with scopes for further blocks. -/
def Leads (source : List Char) (root : SyntaxTree) (w : WalkState) (o : Outline) : Prop :=
  ∃ chains, Steps source root w ⟨o, chains⟩

/-- From wherever the walk is at the tree, its walk over the tree is made of steps. -/
def Walks (source : List Char) (root t : SyntaxTree) : Prop :=
  ∀ (w : WalkState) (here : Place), Fits source root w.chains w.outline →
    IsAt source root w.chains here t → Leads source root w (walk source here w.outline t)

/-- Walking trees one after another leads on if walking each of them does. -/
theorem leads_walkAll (hts : ∀ t ∈ ts, Walks source root t)
    (hw : Fits source root w.chains w.outline)
    (hat : ∀ t ∈ ts, IsAt source root w.chains here t) :
    Leads source root w (walkAll source here w.outline ts) := by
  induction ts generalizing w with
  | nil => exact ⟨w.chains, .refl⟩
  | cons t ts ih =>
      obtain ⟨ht, hts⟩ := List.forall_mem_cons.1 hts
      obtain ⟨hhere, hat⟩ := List.forall_mem_cons.1 hat
      obtain ⟨_, hfirst⟩ := ht w here hw hhere
      obtain ⟨chains, hrest⟩ := ih hts (hfirst.fits hw) fun u hu => (hat u hu).mono hfirst
      exact ⟨chains, hfirst.trans hrest⟩

/-- The walk over the first part in a role. -/
theorem leads_find? {r : Role} (hts : ∀ t ∈ ts, Walks source root t)
    (hw : Fits source root w.chains w.outline)
    (hat : ∀ t ∈ ts, t.role = some r → IsAt source root w.chains here t) :
    Leads source root w
      ((ts.find? fun t => t.role = some r).elim w.outline (walk source here w.outline)) := by
  cases hfound : ts.find? fun t => t.role = some r with
  | none => exact ⟨w.chains, .refl⟩
  | some t =>
      have ht := List.mem_of_find?_eq_some hfound
      exact hts t ht w here hw (hat t ht (by simpa using List.find?_some hfound))

/-- Walking a body leads on. -/
theorem leads_walkBody (hts : ∀ t ∈ ts, Walks source root t)
    (hw : Fits source root w.chains w.outline)
    (hat : ∀ t ∈ ts, t.role = some .body → IsAt source root w.chains here t) :
    Leads source root w (walkBody source here w.outline ts) := by
  rw [walkBody_eq]
  exact leads_find? hts hw hat

/-- Walking the bases of a class leads on. -/
theorem leads_walkBases (hts : ∀ t ∈ ts, Walks source root t)
    (hw : Fits source root w.chains w.outline)
    (hat : ∀ t ∈ ts, t.role = some .superclasses → IsAt source root w.chains here t) :
    Leads source root w (walkBases source here w.outline ts) := by
  rw [walkBases_eq]
  exact leads_find? hts hw hat

/-- The walk over parameters: a default value is walked in the scope around the function. -/
theorem leads_walkParameters {ds : List SyntaxTree}
    (hds : ∀ d ∈ ds, ∀ v ∈ d.children, Walks source root v)
    (hw : Fits source root w.chains w.outline)
    (hat : ∀ d ∈ ds, IsAt source root w.chains here d)
    (hinner : w.chains[inner.scope]? = some (t :: blocks))
    (hnames : ∀ d ∈ ds, ∀ name, parameterName? source d = some name →
      name ∈ parameterNames source t) :
    Leads source root w (walkParameters source here inner w.outline ds) := by
  induction ds generalizing w with
  | nil => exact ⟨w.chains, .refl⟩
  | cons d ds ih =>
      cases d with
      | node kind role start stop children =>
          obtain ⟨hd, hds⟩ := List.forall_mem_cons.1 hds
          obtain ⟨hhere, hat⟩ := List.forall_mem_cons.1 hat
          obtain ⟨hname, hnames⟩ := List.forall_mem_cons.1 hnames
          -- the default is walked before the parameter is bound, so that each parameter is two
          -- stretches
          have hvalue : Leads source root w
              (if hasDefaultValue kind = true then walkValue source here w.outline children
                else w.outline) := by
            split
            · next hdefault =>
                rw [walkValue_eq]
                refine leads_find? hd hw fun v hv _ => hhere.child ?_ ?_ hv
                · rintro (rfl : kind = _)
                  cases hdefault
                · rintro (rfl : kind = _)
                  cases hdefault
            · exact ⟨w.chains, .refl⟩
          have hrest : ∀ w', Steps source root w w' →
              Leads source root w (walkParameters source here inner w'.outline ds) := by
            intro w' hsteps
            obtain ⟨chains, hrest⟩ := ih hds (hsteps.fits hw) (fun d hd => (hat d hd).mono hsteps)
              (getElem?_of_begins hsteps.chains_grow hinner) hnames
            exact ⟨chains, hsteps.trans hrest⟩
          obtain ⟨_, hvalue⟩ := hvalue
          rw [walkParameters]
          cases hfound : parameterName? source (.node kind role start stop children) with
          | none => exact hrest _ hvalue
          | some name =>
              have hbinding := getElem?_of_begins hvalue.chains_grow hinner
              exact hrest _ (hvalue.tail (.bindParameter hbinding (hname name hfound)))

/-- Walking the parameters of a function leads on: each is bound inside, and its default walked
outside. -/
theorem leads_walkDefaults (hts : ∀ t ∈ ts, AllParts (Walks source root) t)
    (hw : Fits source root w.chains w.outline)
    (hinner : w.chains[inner.scope]? = some (t :: blocks))
    (hat : ∀ c ∈ ts, c.role = some .parameters → ∀ d ∈ c.children,
      IsAt source root w.chains here d ∧
        ∀ name, parameterName? source d = some name → name ∈ parameterNames source t) :
    Leads source root w (walkDefaults source here inner w.outline ts) := by
  rw [walkDefaults_eq]
  cases hfound : ts.find? fun t => t.role = some .parameters with
  | none => exact ⟨w.chains, .refl⟩
  | some c =>
      have hc := List.mem_of_find?_eq_some hfound
      have hds := hat c hc (by simpa using List.find?_some hfound)
      refine leads_walkParameters ?_ hw (fun d hd => (hds d hd).1) hinner fun d hd => (hds d hd).2
      intro d hd v hv
      exact (((hts c hc).child hd).child hv).self

section Parts

variable (hparts : ∀ c ∈ t.children, AllParts (Walks source root) c)

include hparts

/-- Every part of a tree is walked at its place. -/
theorem walks_children : ∀ c ∈ t.children, Walks source root c :=
  fun c hc => (hparts c hc).self

/-- A function: its defaults are walked around it, its body inside it. -/
theorem walks_function (hkind : t.kind = .functionDefinition) : Walks source root t := by
  rintro w here hw ⟨blocks, ht, hhere⟩
  obtain ⟨bound, hbound⟩ : ∃ bound, w.outline.bindAll here.scope (binder source t) = bound :=
    ⟨_, rfl⟩
  have hnamed : Steps source root w ⟨bound, w.chains⟩ :=
    hbound ▸ steps_bindAll ht hhere fun name hname => hname
  have hentered : Steps source root w
      ⟨bound.enter .functionBody here.scope, w.chains ++ [t :: blocks]⟩ :=
    hnamed.tail (.enterFunction ht hhere hkind)
  have hinner := hhere.function (hnamed.fits hw) hkind
  have hscope := hinner.scope
  rw [bodies_definition (Or.inl hkind)] at hscope
  rw [walk_function here w.outline hkind hbound]
  obtain ⟨middle, hdefaults⟩ := leads_walkDefaults hparts (hentered.fits hw)
    hscope fun c hc hrole d hd => by
      obtain ⟨hstands, hname⟩ := stands_parameter ht hc source hkind hrole hd
      exact ⟨IsAt.mono ⟨blocks, hstands, hhere⟩ hentered, hname⟩
  obtain ⟨chains, hbody⟩ := leads_walkBody (walks_children hparts)
    ((hentered.trans hdefaults).fits hw) fun c hc hrole =>
      ⟨t :: blocks, stands_body ht hc (Or.inl hkind) hrole, hinner.mono hdefaults⟩
  exact ⟨chains, (hentered.trans hdefaults).trans hbody⟩

/-- A class: its bases are walked around it, its body inside it. -/
theorem walks_class (hkind : t.kind = .classDefinition) : Walks source root t := by
  rintro w here hw ⟨blocks, ht, hhere⟩
  have hnamed := steps_bindAll ht hhere fun name hname => hname
  obtain ⟨middle, hbases⟩ := leads_walkBases (walks_children hparts) (hnamed.fits hw)
    fun c hc hrole => ⟨blocks, stands_head ht hc (Or.inr hkind) (by simp [hrole]), hhere⟩
  have hbased := hnamed.trans hbases
  have hentered := hbased.tail (.enterClass ht (hhere.mono hbased) hkind)
  have hinner := (hhere.mono hbased).class (hbased.fits hw) hkind
  rw [walk_class here w.outline hkind rfl]
  obtain ⟨chains, hbody⟩ := leads_walkBody (walks_children hparts) (hentered.fits hw)
    fun c hc hrole => ⟨t :: blocks, stands_body ht hc (Or.inr hkind) hrole, hinner⟩
  exact ⟨chains, hentered.trans hbody⟩

/-- A call is recorded, and then its parts are walked where it stands. -/
theorem walks_call (hkind : t.kind = .call) : Walks source root t := by
  rintro w here hw ⟨blocks, ht, hhere⟩
  have hrecorded : Steps source root w ⟨recordCall source here t w.outline, w.chains⟩ :=
    .single (.recordCall ht hhere hkind)
  rw [walk_call here w.outline hkind]
  obtain ⟨chains, hall⟩ := leads_walkAll (walks_children hparts) (hrecorded.fits hw)
    fun c hc => IsAt.child ⟨blocks, ht, hhere⟩ (by simp [hkind]) (by simp [hkind]) hc
  exact ⟨chains, hrecorded.trans hall⟩

/-- Any other tree binds its names, and then its parts are walked where it stands. -/
theorem walks_other (hfunction : t.kind ≠ .functionDefinition) (hclass : t.kind ≠ .classDefinition)
    (himport : t.kind ≠ .importStatement) (hfrom : t.kind ≠ .fromImport) (hcall : t.kind ≠ .call) :
    Walks source root t := by
  rintro w here hw ⟨blocks, ht, hhere⟩
  have hbound := steps_bindAll ht hhere fun name hname => hname
  rw [walk_other here w.outline hfunction hclass himport hfrom hcall]
  obtain ⟨chains, hall⟩ := leads_walkAll (walks_children hparts) (hbound.fits hw)
    fun c hc => IsAt.child ⟨blocks, ht, hhere⟩ hfunction hclass hc
  exact ⟨chains, hbound.trans hall⟩

end Parts

/-- An import is walked by binding its names. -/
theorem walks_import (hkind : t.kind = .importStatement ∨ t.kind = .fromImport) :
    Walks source root t := by
  rintro w here - ⟨blocks, ht, hhere⟩
  rw [walk_import here w.outline hkind]
  exact ⟨w.chains, steps_bindImports ht hhere hkind fun i hi => hi⟩

/-- The walk over a tree is made of steps, from its children to the tree. -/
theorem walks (source : List Char) (root t : SyntaxTree) : AllParts (Walks source root) t := by
  induction t using childInduction with
  | step t ih =>
      refine AllParts.of_children ?_ ih
      by_cases hfunction : t.kind = .functionDefinition
      · exact walks_function ih hfunction
      by_cases hclass : t.kind = .classDefinition
      · exact walks_class ih hclass
      by_cases himport : t.kind = .importStatement
      · exact walks_import (Or.inl himport)
      by_cases hfrom : t.kind = .fromImport
      · exact walks_import (Or.inr hfrom)
      by_cases hcall : t.kind = .call
      · exact walks_call ih hcall
      · exact walks_other ih hfunction hclass himport hfrom hcall

/-! ## The outline of a module -/

/-- The walk over a module starts in its scope. -/
theorem isAt_root (source : List Char) (hroot : root.kind = .module) :
    IsAt source root [[root]] {} root := by
  refine ⟨[root], .root, ?_, ?_⟩
  · rw [bodies_module hroot]
    rfl
  · rw [classPath_cons_of_ne (by simp [hroot])]
    rfl

/-- **A walk is made of steps.** The outline of a module comes about in steps, each at a part of the
module and in the scope of the blocks that the part stands in. -/
theorem exists_steps_ofTree (source : List Char) (hroot : root.kind = .module) :
    ∃ chains, Steps source root ⟨{}, [[root]]⟩ ⟨ofTree source root, chains⟩ :=
  (walks source root root).self ⟨{}, [[root]]⟩ {} (fits_start source hroot)
    (isAt_root source hroot)

/-- What holds of the first scope alone and is kept by each step holds of the outline of a
module. -/
theorem ofTree_of_step {P : Outline → Prop} (hroot : root.kind = .module) (hstart : P {})
    (hstep : ∀ w w', Step source root w w' → P w.outline → P w'.outline) :
    P (ofTree source root) := by
  obtain ⟨chains, hsteps⟩ := exists_steps_ofTree source hroot
  have hall : ∀ w, Steps source root ⟨{}, [[root]]⟩ w → P w.outline := by
    intro w hsteps
    induction hsteps with
    | refl => exact hstart
    | tail _ hlast ih => exact hstep _ _ hlast ih
  exact hall _ hsteps

/-- The scopes of a module are those of its blocks. -/
theorem fits_ofTree (source : List Char) (hroot : root.kind = .module) :
    ∃ chains, Fits source root chains (ofTree source root) := by
  obtain ⟨chains, hsteps⟩ := exists_steps_ofTree source hroot
  exact ⟨chains, hsteps.fits (fits_start source hroot)⟩

/-- The calls of a module are read off parts of its statements. -/
theorem exists_part_of_mem_ofTree {call : CallDef} (ht : t.kind = .module)
    (h : call ∈ (ofTree source t).calls) :
    ∃ s ∈ t.children, ∃ u here, IsPart u s ∧ u.kind = .call ∧
      callOf? source here u = some call := by
  obtain ⟨chains, hfits⟩ := fits_ofTree source ht
  obtain ⟨blocks, u, here, hu, hkind, hcall, -⟩ := hfits.call call h
  cases hu.isPart with
  | self =>
      rw [ht] at hkind
      cases hkind
  | inside hs hu => exact ⟨_, hs, u, here, hu, hkind, hcall⟩

/-! ## The class around a call -/

section ClassAround

variable (source root)

/-- The call stands in blocks, and it is recorded with the path of the innermost class among
them. -/
def StandsNamed (call : CallDef) : Prop :=
  ∃ blocks t here, Stands root blocks t ∧ t.kind = .call ∧ callOf? source here t = some call ∧
    call.enclosingClass = classPath source blocks

/-- All calls found so far are recorded with the class that they stand in. -/
def AllNamed (o : Outline) : Prop :=
  ∀ call ∈ o.calls, StandsNamed source root call

end ClassAround

/-- A call is recorded with the class around its place. -/
theorem enclosingClass_of_callOf? {call : CallDef} (h : callOf? source here t = some call) :
    call.enclosingClass = here.enclosingClass := by
  obtain ⟨_, _, hread⟩ := readOff_of_callOf? h
  exact hread.enclosingClass_eq

/-- A call may be recorded where the class around the place is that of the blocks. -/
theorem AllNamed.recordCall (h : AllNamed source root o) (ht : Stands root blocks t)
    (hkind : t.kind = .call) (hpath : here.enclosingClass = classPath source blocks) :
    AllNamed source root (recordCall source here t o) := by
  rw [Outline.recordCall]
  cases hfound : callOf? source here t with
  | none => exact h
  | some call =>
      intro call' hcall
      rcases List.mem_append.1 hcall with hbefore | hnew
      · exact h call' hbefore
      · rw [List.mem_singleton.1 hnew]
        exact ⟨blocks, t, here, ht, hkind, hfound, (enclosingClass_of_callOf? hfound).trans hpath⟩

/-- **The class around a call.** Every call of a module is recorded with the path of the class that
it stands in. -/
theorem named_ofTree (source : List Char) (hroot : root.kind = .module) :
    AllNamed source root (ofTree source root) := by
  refine ofTree_of_step hroot (fun call hcall => absurd hcall List.not_mem_nil) ?_
  intro w w' hstep h
  cases hstep with
  | bind _ _ _ => exact h
  | bindImport _ _ _ _ => exact h
  | bindParameter _ _ => exact h
  | enterFunction _ _ _ => exact h
  | enterClass _ _ _ => exact h
  | recordCall ht hhere hkind => exact h.recordCall ht hkind hhere.enclosingClass

end CallFill.Outline
