import CallFill.Proofs.Definition.ClassPlace
import CallFill.Proofs.Scope.CallLayout
import CallFill.Proofs.Scope.ClassPath

/-!
# The class definitions of a module

The classes of a module are read off some of the class definitions in its tree: those that stand in
the module, perhaps below `if`, `try` or `with`, or right in the body of another of them. Here they
are listed with the blocks that they stand in (`Definition.collectedIn`). The list says for each
class what it was read off (`classes_ofStatements`), and the path of the class is that of its
definition among the blocks (`isPlaced_collectedIn`).
-/

namespace CallFill.Definition

open Source SyntaxTree Text Outline

/-- A class definition that is read, and where it stands. -/
structure Collected where
  path : String
  tree : SyntaxTree
  /-- The blocks around the definition, the innermost first. -/
  around : List SyntaxTree
  decorators : List String
  /-- Whether the decorators make all fields keyword-only. -/
  isMarked : Bool := false

variable (source : List Char)

/-- The class that is read off the definition. -/
def Collected.read (k : Collected) : ClassDef :=
  let c := ownClass source k.path k.decorators k.tree
  if k.isMarked then { c with fields := c.fields.map fun f => { f with isKeywordOnly := true } }
  else c

/-- A class that is read off a definition is named by the path to it. -/
theorem Collected.name_read (k : Collected) : (k.read source).name = k.path := by
  rw [Collected.read]
  split <;> rfl

mutual

/-- The definition of a class and those nested in it, where `blocks` are around the definition. -/
def collected (outer : String) (decorators : List String) (blocks : List SyntaxTree) :
    SyntaxTree → List Collected
  | .node kind role start stop children =>
    let t := SyntaxTree.node kind role start stop children
    match t.child? .name with
    | none => []
    | some n =>
      let path := Dotted.qualify outer (n.text source)
      { path, tree := t, around := blocks, decorators } :: collectedInBody path blocks t children
termination_by structural t => t

/-- The definitions in the body among the parts of a class. -/
def collectedInBody (outer : String) (blocks : List SyntaxTree) (parent : SyntaxTree) :
    List SyntaxTree → List Collected
  | [] => []
  | .node kind role start stop children :: parts =>
    let t := SyntaxTree.node kind role start stop children
    if role = some .body then collectedAmong outer (blocksOf blocks parent t) t children
    else collectedInBody outer blocks parent parts
termination_by structural ts => ts

/-- The definitions among the statements of a class body, where `parent` is the tree around them. -/
def collectedAmong (outer : String) (blocks : List SyntaxTree) (parent : SyntaxTree) :
    List SyntaxTree → List Collected
  | [] => []
  | .node kind role start stop children :: statements =>
    let t := SyntaxTree.node kind role start stop children
    (match kind with
      | .classDefinition => collected outer [] (blocksOf blocks parent t) t
      | .decoratedDefinition =>
        collectedDecorated outer ((decorators source t).map (·.1)) (blocksOf blocks parent t) t
          children
      | _ => []) ++ collectedAmong outer blocks parent statements
termination_by structural ts => ts

/-- The definition of the class among the parts of a decorated definition. -/
def collectedDecorated (outer : String) (decorators : List String) (blocks : List SyntaxTree)
    (parent : SyntaxTree) : List SyntaxTree → List Collected
  | [] => []
  | t :: parts =>
    if t.role = some .definition then
      if t.kind = .classDefinition then collected outer decorators (blocksOf blocks parent t) t
      else []
    else collectedDecorated outer decorators blocks parent parts
termination_by structural ts => ts

end

/-- The first definition with the mark that makes its fields keyword-only. -/
def markFirst : List Collected → List Collected
  | [] => []
  | k :: ks => { k with isMarked := true } :: ks

mutual

/-- The class definitions that a statement of the module gives classes for. -/
def collectedOf (blocks : List SyntaxTree) (parent : SyntaxTree) : SyntaxTree → List Collected
  | .node kind role start stop children =>
    let t := SyntaxTree.node kind role start stop children
    if isTransparent kind then collectedParts (blocksOf blocks parent t) t children
    else if marksKeywordOnly source t then markFirst (collectedAmong source "" blocks parent [t])
    else collectedAmong source "" blocks parent [t]
termination_by structural t => t

/-- The class definitions of some statements of the module. -/
def collectedStatements (blocks : List SyntaxTree) (parent : SyntaxTree) :
    List SyntaxTree → List Collected
  | [] => []
  | t :: ts => collectedOf blocks parent t ++ collectedStatements blocks parent ts
termination_by structural t => t

/-- The class definitions of the blocks among the parts of a statement. -/
def collectedParts (blocks : List SyntaxTree) (parent : SyntaxTree) :
    List SyntaxTree → List Collected
  | [] => []
  | .node kind role start stop children :: parts =>
    let t := SyntaxTree.node kind role start stop children
    (if kind = .block then collectedStatements (blocksOf blocks parent t) t children
      else if isClause kind then collectedParts (blocksOf blocks parent t) t children
      else []) ++ collectedParts blocks parent parts
termination_by structural ts => ts

end

/-- The class definitions that the classes of a module are read off, in their order. -/
def collectedIn (root : SyntaxTree) : List Collected :=
  collectedStatements source [root] root root.children

variable {source} {outer : String} {blocks : List SyntaxTree} {root parent t : SyntaxTree}

/-! ## One statement of a class body -/

section Statements

variable {statements : List SyntaxTree}

/-- A class among statements comes with those nested in it, before the later ones. -/
theorem collectedAmong_class (hkind : t.kind = .classDefinition) :
    collectedAmong source outer blocks parent (t :: statements) =
      collected source outer [] (blocksOf blocks parent t) t ++
        collectedAmong source outer blocks parent statements := by
  obtain ⟨kind, role, start, stop, children⟩ := t
  obtain rfl : kind = .classDefinition := hkind
  rfl

/-- A decorated class comes with its decorators. -/
theorem collectedAmong_decorated (hkind : t.kind = .decoratedDefinition) :
    collectedAmong source outer blocks parent (t :: statements) =
      collectedDecorated source outer ((decorators source t).map (·.1)) (blocksOf blocks parent t) t
          t.children ++
        collectedAmong source outer blocks parent statements := by
  obtain ⟨kind, role, start, stop, children⟩ := t
  obtain rfl : kind = .decoratedDefinition := hkind
  rfl

/-- Other statements define no class. -/
theorem collectedAmong_other (hclass : t.kind ≠ .classDefinition)
    (hdecorated : t.kind ≠ .decoratedDefinition) :
    collectedAmong source outer blocks parent (t :: statements) =
      collectedAmong source outer blocks parent statements := by
  obtain ⟨kind, role, start, stop, children⟩ := t
  rw [collectedAmong, List.nil_append]
  · exact hclass
  · exact hdecorated

end Statements

/-! ## The classes of the definitions -/

mutual

/-- The classes of a definition are read off the definitions that are listed for it. -/
theorem classes_eq_map (outer : String) (ds : List String) (blocks : List SyntaxTree) :
    ∀ t : SyntaxTree, classes source outer ds t =
      (collected source outer ds blocks t).map (Collected.read source)
  | .node kind role start stop children => by
      rw [collected]
      cases hn : SyntaxTree.child? (.node kind role start stop children) .name with
      | none =>
          rw [classes, hn]
          rfl
      | some n =>
          rw [classes_of_name hn, List.map_cons]
          exact congrArg (_ :: ·) (classesInBody_eq_map _ blocks _ children)
termination_by structural t => t

/-- The classes in a body are read off the definitions there. -/
theorem classesInBody_eq_map (outer : String) (blocks : List SyntaxTree) (parent : SyntaxTree) :
    ∀ ts : List SyntaxTree, classesInBody source outer ts =
      (collectedInBody source outer blocks parent ts).map (Collected.read source)
  | [] => rfl
  | .node kind role start stop children :: parts => by
      rw [classesInBody, collectedInBody]
      split
      · exact classesAmong_eq_map outer _ _ children
      · exact classesInBody_eq_map outer blocks parent parts
termination_by structural ts => ts

/-- The classes among the statements of a body are read off the definitions there. -/
theorem classesAmong_eq_map (outer : String) (blocks : List SyntaxTree) (parent : SyntaxTree) :
    ∀ ts : List SyntaxTree, classesAmong source outer ts =
      (collectedAmong source outer blocks parent ts).map (Collected.read source)
  | [] => rfl
  | t :: statements => by
      have ih := classesAmong_eq_map outer blocks parent statements
      by_cases hclass : t.kind = .classDefinition
      · rw [classesAmong_class _ _ hclass, collectedAmong_class hclass, List.map_append, ← ih,
          ← classes_eq_map outer [] _ t]
      · by_cases hdecorated : t.kind = .decoratedDefinition
        · cases t with
          | node kind role start stop children =>
              rw [classesAmong_decorated _ _ hdecorated, collectedAmong_decorated hdecorated,
                List.map_append, ← ih, SyntaxTree.children,
                ← classesDecorated_eq_map outer _ _ _ children]
        · rw [classesAmong_other _ _ hclass hdecorated, collectedAmong_other hclass hdecorated, ih]
termination_by structural ts => ts

/-- A decorated class, and those in it, are read off the definitions there. -/
theorem classesDecorated_eq_map (outer : String) (ds : List String) (blocks : List SyntaxTree)
    (parent : SyntaxTree) : ∀ ts : List SyntaxTree, classesDecorated source outer ds ts =
      (collectedDecorated source outer ds blocks parent ts).map (Collected.read source)
  | [] => rfl
  | t :: parts => by
      rw [classesDecorated, collectedDecorated]
      split
      · split
        · exact classes_eq_map outer ds _ t
        · rfl
      · exact classesDecorated_eq_map outer ds blocks parent parts
termination_by structural ts => ts

end

/-- Marking the first definition makes the fields of its class keyword-only. -/
theorem map_markFirst (ks : List Collected) :
    (markFirst ks).map (Collected.read source) =
      firstKeywordOnly (ks.map (Collected.read source)) := by
  cases ks with
  | nil => rfl
  | cons k ks =>
      cases hmarked : k.isMarked <;>
        simp [markFirst, firstKeywordOnly, Collected.read, hmarked]

/-- A statement that holds no class statement defines no class. -/
theorem classes_ofStatement_other (htransparent : isTransparent t.kind = false)
    (hclass : ¬ IsClassStatement t) : (ofStatement source t).classes = [] := by
  obtain ⟨hnoclass, hundecorated⟩ := not_or.1 hclass
  obtain ⟨kind, role, start, stop, children⟩ := t
  have htransparent : ¬ isTransparent kind = true := Bool.eq_false_iff.1 htransparent
  unfold ofStatement
  dsimp only
  rw [if_neg htransparent]
  split
  · rfl
  · split
    · exact absurd rfl hnoclass
    · rfl
    · exact absurd rfl hundecorated
    · rfl
    · rfl
    · rfl

mutual

/-- The classes of a statement are read off its definitions, those of an `if` or a loop among them.
-/
theorem classes_ofStatement_eq_map (blocks : List SyntaxTree) (parent : SyntaxTree) :
    ∀ t : SyntaxTree, (ofStatement source t).classes =
      (collectedOf source blocks parent t).map (Collected.read source)
  | .node kind role start stop children => by
      by_cases htransparent : isTransparent kind = true
      · have himport : isImport (.node kind role start stop children) = false := by
          cases kind <;> first | rfl | exact absurd htransparent (by decide)
        have hparts : ofStatement source (.node kind role start stop children) =
            ofParts source children := by
          unfold ofStatement
          dsimp only
          rw [himport, if_neg Bool.false_ne_true, if_pos htransparent]
        rw [hparts, collectedOf, if_pos htransparent]
        exact classes_ofParts_eq_map _ _ children
      · have hcollected : collectedOf source blocks parent (.node kind role start stop children) =
            if marksKeywordOnly source (.node kind role start stop children) then
              markFirst
                (collectedAmong source "" blocks parent [.node kind role start stop children])
            else collectedAmong source "" blocks parent [.node kind role start stop children] := by
          rw [collectedOf]
          exact if_neg htransparent
        rw [hcollected]
        by_cases hclass : IsClassStatement (.node kind role start stop children)
        · rw [classes_ofStatement_eq hclass, classesAmong_eq_map "" blocks parent]
          split
          · exact (map_markFirst _).symm
          · rfl
        · obtain ⟨hnoclass, hundecorated⟩ := not_or.1 hclass
          rw [classes_ofStatement_other (by simpa [SyntaxTree.kind] using htransparent) hclass,
            collectedAmong_other hnoclass hundecorated, collectedAmong]
          split <;> rfl
termination_by structural t => t

theorem classes_ofStatements_eq_map (blocks : List SyntaxTree) (parent : SyntaxTree) :
    ∀ ts : List SyntaxTree, (ofStatements source ts).classes =
      (collectedStatements source blocks parent ts).map (Collected.read source)
  | [] => rfl
  | t :: ts => by
      rw [ofStatements, collectedStatements, List.map_append,
        ← classes_ofStatement_eq_map blocks parent t,
        ← classes_ofStatements_eq_map blocks parent ts]
      rfl
termination_by structural ts => ts

theorem classes_ofParts_eq_map (blocks : List SyntaxTree) (parent : SyntaxTree) :
    ∀ ts : List SyntaxTree, (ofParts source ts).classes =
      (collectedParts source blocks parent ts).map (Collected.read source)
  | [] => rfl
  | .node kind role start stop children :: parts => by
      rw [ofParts, collectedParts, List.map_append, ← classes_ofParts_eq_map blocks parent parts]
      show _ ++ _ = _ ++ _
      congr 1
      split
      · exact classes_ofStatements_eq_map _ _ children
      · split
        · exact classes_ofParts_eq_map _ _ children
        · rfl
termination_by structural ts => ts

end

/-- The classes of a module are read off the definitions that are listed for it. -/
theorem classes_ofStatements (source : List Char) (root : SyntaxTree) :
    (ofStatements source root.children).classes =
      (collectedIn source root).map (Collected.read source) :=
  classes_ofStatements_eq_map [root] root root.children

/-! ## Where the definitions stand -/

/-- The definition stands in its blocks, and its path is that of the innermost class there. -/
structure Collected.IsPlaced (source : List Char) (root : SyntaxTree) (k : Collected) : Prop where
  stands : Stands root k.around k.tree
  kind_eq : k.tree.kind = .classDefinition
  classPath_eq : classPath source (k.tree :: k.around) = some k.path

/-- The class path around what stands in the blocks: empty in the module, and else the path of the
class in whose body it stands. -/
def Surrounds (source : List Char) (outer : String) (blocks : List SyntaxTree) : Prop :=
  (outer = "" ∧ (bodies blocks).head?.map kind ≠ some .classDefinition) ∨
    (outer ≠ "" ∧ classPath source blocks = some outer ∧
      (bodies blocks).head?.map kind = some .classDefinition)

/-- Which class is around depends only on the bodies among the blocks. -/
theorem Surrounds.of_bodies_eq {blocks' : List SyntaxTree} (h : Surrounds source outer blocks)
    (heq : bodies blocks' = bodies blocks) : Surrounds source outer blocks' := by
  rw [Surrounds, heq, ← classPath_bodies, heq, classPath_bodies]
  exact h

/-- What stands in a tree that is neither a class nor a function has the same class around it. -/
theorem Surrounds.blocksOf (h : Surrounds source outer blocks)
    (hparent : parent.kind.isDefinition = false) (t : SyntaxTree) :
    Surrounds source outer (blocksOf blocks parent t) := by
  obtain ⟨hclass, hfunction⟩ : parent.kind ≠ .classDefinition ∧ parent.kind ≠ .functionDefinition :=
    by simpa [Kind.isDefinition] using hparent
  exact h.of_bodies_eq (bodies_blocksOf hfunction hclass)

/-- The path of a class is that among the blocks around it, and it is around its body. -/
theorem Surrounds.of_class (h : Surrounds source outer blocks) (ht : t.kind = .classDefinition)
    (hne : className source t ≠ "") :
    classPath source (t :: blocks) = some (Dotted.qualify outer (className source t)) ∧
      Surrounds source (Dotted.qualify outer (className source t)) (t :: blocks) := by
  have hpath : classPath source (t :: blocks) =
      some (Dotted.qualify outer (className source t)) := by
    rcases h with ⟨rfl, hmodule⟩ | ⟨hnonempty, hpath, hclass⟩
    · exact classPath_cons_of_other ht hmodule
    · rw [Dotted.qualify, if_neg hnonempty]
      exact classPath_cons_of_class ht hclass hpath
  refine ⟨hpath, Or.inr ⟨qualify_ne_empty outer hne, hpath, ?_⟩⟩
  rw [bodies, List.dropWhile_cons_of_neg (isInline_definition (Or.inr ht))]
  simp [ht]

/-- A class of a text has a name. -/
theorem className_ne_empty (hnamed : AllParts (Named (HoldsName source)) t)
    (ht : t.kind = .classDefinition) : className source t ≠ "" := by
  obtain ⟨n, hn, hname⟩ := exists_name_of_definition hnamed (by rw [ht]; rfl)
  rw [className, hn, Option.elim_some]
  intro hempty
  simp [hempty, IsIdentifier] at hname

mutual

/-- A class stands in the blocks it was found in, and those in its body have it around them. -/
theorem isPlaced_collected {outer : String} {blocks : List SyntaxTree} (ds : List String) :
    ∀ t : SyntaxTree, Stands root blocks t → AllParts (Named (HoldsName source)) t →
      t.kind = .classDefinition → Surrounds source outer blocks →
      ∀ k ∈ collected source outer ds blocks t, k.IsPlaced source root
  | .node kind role start stop children, hstands, hnamed, hkind, hsurrounds => by
      have hne := className_ne_empty hnamed hkind
      rw [collected]
      cases hn : SyntaxTree.child? (.node kind role start stop children) .name with
      | none => exact fun k hk => absurd hk List.not_mem_nil
      | some n =>
          have hname : className source (.node kind role start stop children) = n.text source := by
            rw [className, hn, Option.elim_some]
          obtain ⟨hpath, hinside⟩ := hsurrounds.of_class hkind hne
          rw [hname] at hpath hinside
          refine List.forall_mem_cons.2 ⟨⟨hstands, hkind, hpath⟩, ?_⟩
          exact isPlaced_collectedInBody children (fun u hu => hu) hstands
            (fun u hu => hnamed.child hu) hkind hinside
termination_by structural t => t

/-- In the body of a class stand the classes that have its path before their own. -/
theorem isPlaced_collectedInBody {outer : String} {blocks : List SyntaxTree}
    {parent : SyntaxTree} :
    ∀ ts : List SyntaxTree, (∀ t ∈ ts, t ∈ parent.children) → Stands root blocks parent →
      (∀ t ∈ ts, AllParts (Named (HoldsName source)) t) → parent.kind = .classDefinition →
      Surrounds source outer (parent :: blocks) →
      ∀ k ∈ collectedInBody source outer blocks parent ts, k.IsPlaced source root
  | [], _, _, _, _, _ => fun k hk => absurd hk List.not_mem_nil
  | .node kind role start stop children :: parts, hparts, hstands, hnamed, hkind, hsurrounds => by
      obtain ⟨hfirst, hrest⟩ := List.forall_mem_cons.1 hparts
      obtain ⟨hself, hnamed⟩ := List.forall_mem_cons.1 hnamed
      rw [collectedInBody]
      split
      · next hrole =>
          have hinside : SyntaxTree.blocksOf blocks parent (.node kind role start stop children) =
              parent :: blocks := (blocksOf_definition _ (Or.inr hkind)).trans (if_pos hrole)
          have hbody := hstands.part hfirst
          rw [hinside] at hbody ⊢
          exact isPlaced_collectedAmong children (fun u hu => hu) hbody
            (fun u hu => hself.child hu) (hself.self.body hrole) hsurrounds
      · exact isPlaced_collectedInBody parts hrest hstands hnamed hkind hsurrounds
termination_by structural ts => ts

/-- Statements leave the class around them as it is. -/
theorem isPlaced_collectedAmong {outer : String} {blocks : List SyntaxTree}
    {parent : SyntaxTree} :
    ∀ ts : List SyntaxTree, (∀ t ∈ ts, t ∈ parent.children) → Stands root blocks parent →
      (∀ t ∈ ts, AllParts (Named (HoldsName source)) t) → parent.kind.isDefinition = false →
      Surrounds source outer blocks →
      ∀ k ∈ collectedAmong source outer blocks parent ts, k.IsPlaced source root
  | [], _, _, _, _, _ => fun k hk => absurd hk List.not_mem_nil
  | t :: statements, hparts, hstands, hnamed, hparent, hsurrounds => by
      obtain ⟨hfirst, hrest⟩ := List.forall_mem_cons.1 hparts
      obtain ⟨hself, hnamed⟩ := List.forall_mem_cons.1 hnamed
      have ih := isPlaced_collectedAmong statements hrest hstands hnamed hparent hsurrounds
      have hinside := hsurrounds.blocksOf hparent t
      have ht := hstands.part hfirst
      by_cases hclass : t.kind = .classDefinition
      · rw [collectedAmong_class hclass]
        exact List.forall_mem_append.2 ⟨isPlaced_collected [] t ht hself hclass hinside, ih⟩
      · by_cases hdecorated : t.kind = .decoratedDefinition
        · rw [collectedAmong_decorated hdecorated]
          cases t with
          | node kind role start stop children =>
              refine List.forall_mem_append.2 ⟨?_, ih⟩
              exact isPlaced_collectedDecorated _ children (fun u hu => hu) ht
                (fun u hu => hself.child hu) (by rw [hdecorated]; rfl) hinside
        · rw [collectedAmong_other hclass hdecorated]
          exact ih
termination_by structural ts => ts

theorem isPlaced_collectedDecorated {outer : String} {blocks : List SyntaxTree}
    {parent : SyntaxTree} (ds : List String) :
    ∀ ts : List SyntaxTree, (∀ t ∈ ts, t ∈ parent.children) → Stands root blocks parent →
      (∀ t ∈ ts, AllParts (Named (HoldsName source)) t) → parent.kind.isDefinition = false →
      Surrounds source outer blocks →
      ∀ k ∈ collectedDecorated source outer ds blocks parent ts, k.IsPlaced source root
  | [], _, _, _, _, _ => fun k hk => absurd hk List.not_mem_nil
  | t :: parts, hparts, hstands, hnamed, hparent, hsurrounds => by
      obtain ⟨hfirst, hrest⟩ := List.forall_mem_cons.1 hparts
      obtain ⟨hself, hnamed⟩ := List.forall_mem_cons.1 hnamed
      rw [collectedDecorated]
      split
      · split
        · next hclass =>
            exact isPlaced_collected ds t (hstands.part hfirst) hself hclass
              (hsurrounds.blocksOf hparent t)
        · exact fun k hk => absurd hk List.not_mem_nil
      · exact isPlaced_collectedDecorated ds parts hrest hstands hnamed hparent hsurrounds
termination_by structural ts => ts

end

/-- Marking a definition does not move it. -/
theorem isPlaced_markFirst {ks : List Collected} (h : ∀ k ∈ ks, k.IsPlaced source root) :
    ∀ k ∈ markFirst ks, k.IsPlaced source root := by
  cases ks with
  | nil => exact h
  | cons k ks =>
      obtain ⟨⟨hstands, hkind, hpath⟩, hrest⟩ := List.forall_mem_cons.1 h
      exact List.forall_mem_cons.2 ⟨⟨hstands, hkind, hpath⟩, hrest⟩

mutual

/-- A statement that no class is around places its definitions. -/
theorem isPlaced_collectedOf {blocks : List SyntaxTree} {parent : SyntaxTree} :
    ∀ t : SyntaxTree, t ∈ parent.children → Stands root blocks parent →
      AllParts (Named (HoldsName source)) t → parent.kind.isDefinition = false →
      Surrounds source "" blocks →
      ∀ k ∈ collectedOf source blocks parent t, k.IsPlaced source root
  | .node kind role start stop children, hmem, hstands, hnamed, hparent, hsurrounds => by
      rw [collectedOf]
      split
      · next htransparent =>
          have hkind : Kind.isDefinition kind = false := by
            cases kind <;> first | rfl | exact absurd htransparent (by decide)
          exact isPlaced_collectedParts children (fun u hu => hu) (hstands.part hmem)
            (fun u hu => hnamed.child hu) hkind (hsurrounds.blocksOf hparent _)
      · have hclass := isPlaced_collectedAmong [.node kind role start stop children]
          (by simpa using hmem) hstands (by simpa using hnamed) hparent hsurrounds
        split
        · exact isPlaced_markFirst hclass
        · exact hclass
termination_by structural t => t

theorem isPlaced_collectedStatements {blocks : List SyntaxTree} {parent : SyntaxTree} :
    ∀ ts : List SyntaxTree, (∀ t ∈ ts, t ∈ parent.children) → Stands root blocks parent →
      (∀ t ∈ ts, AllParts (Named (HoldsName source)) t) → parent.kind.isDefinition = false →
      Surrounds source "" blocks →
      ∀ k ∈ collectedStatements source blocks parent ts, k.IsPlaced source root
  | [], _, _, _, _, _ => fun k hk => absurd hk List.not_mem_nil
  | t :: ts, hparts, hstands, hnamed, hparent, hsurrounds => by
      obtain ⟨hfirst, hrest⟩ := List.forall_mem_cons.1 hparts
      obtain ⟨hself, hnamed⟩ := List.forall_mem_cons.1 hnamed
      rw [collectedStatements]
      exact List.forall_mem_append.2
        ⟨isPlaced_collectedOf t hfirst hstands hself hparent hsurrounds,
          isPlaced_collectedStatements ts hrest hstands hnamed hparent hsurrounds⟩
termination_by structural ts => ts

theorem isPlaced_collectedParts {blocks : List SyntaxTree} {parent : SyntaxTree} :
    ∀ ts : List SyntaxTree, (∀ t ∈ ts, t ∈ parent.children) → Stands root blocks parent →
      (∀ t ∈ ts, AllParts (Named (HoldsName source)) t) → parent.kind.isDefinition = false →
      Surrounds source "" blocks →
      ∀ k ∈ collectedParts source blocks parent ts, k.IsPlaced source root
  | [], _, _, _, _, _ => fun k hk => absurd hk List.not_mem_nil
  | .node kind role start stop children :: parts, hparts, hstands, hnamed, hparent, hsurrounds => by
      obtain ⟨hfirst, hrest⟩ := List.forall_mem_cons.1 hparts
      obtain ⟨hself, hnamed⟩ := List.forall_mem_cons.1 hnamed
      rw [collectedParts]
      refine List.forall_mem_append.2
        ⟨?_, isPlaced_collectedParts parts hrest hstands hnamed hparent hsurrounds⟩
      have hpart := hstands.part hfirst
      have hinside := hsurrounds.blocksOf hparent (.node kind role start stop children)
      split
      · next hblock =>
          exact isPlaced_collectedStatements children (fun u hu => hu) hpart
            (fun u hu => hself.child hu) (by simp [SyntaxTree.kind, hblock, Kind.isDefinition])
            hinside
      · split
        · next hclause =>
            have hkind : Kind.isDefinition kind = false := by
              cases kind <;> first | rfl | exact absurd hclause (by decide)
            exact isPlaced_collectedParts children (fun u hu => hu) hpart
              (fun u hu => hself.child hu) hkind hinside
        · exact fun k hk => absurd hk List.not_mem_nil
termination_by structural ts => ts

end

/-- The definitions that the classes of a text are read off stand where they are listed. -/
theorem isPlaced_collectedIn (text : List Char) :
    ∀ k ∈ collectedIn text (parse text), k.IsPlaced text (parse text) := by
  have hnamed := named_parse text
  have hkind := kind_parse text
  refine isPlaced_collectedStatements (parse text).children (fun u hu => hu) .root
    (fun u hu => hnamed.child hu) (by rw [hkind]; rfl) (Or.inl ⟨rfl, ?_⟩)
  rw [bodies_module hkind]
  simp [hkind]

end CallFill.Definition
