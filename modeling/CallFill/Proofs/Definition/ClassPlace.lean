import CallFill.Proofs.Source.Names
import CallFill.SourceModule

/-!
# Classes wherever they stand

A class definition in the body of another class is read as it is at the top level, under the path of
the class around it (`classesAmong_under`): the walk carries that path and looks at nothing else
outside of the definition. Only the decorators are read in two ways. At the top level a decorator
with `kw_only=True` makes all fields of its class keyword-only, in a class body it does not
(`classes_ofStatement`), so the place matters exactly for classes that have such a decorator and a
field that is not keyword-only without it (`classes_ofStatement_iff`).
-/

namespace CallFill

open Source SyntaxTree Text

/-- The class as it is listed in the body of another. -/
def ClassDef.under (outer : String) (c : ClassDef) : ClassDef :=
  { c with name := Dotted.below outer c.name }

namespace Definition

variable {source : List Char} {outer inner path : String} {t : SyntaxTree}

/-! ## Paths below a class -/

/-- What is named below one path is what is named below another, with the outer name before it. -/
def IsUnder (outer inner path : String) : Prop :=
  ∀ name, Dotted.qualify path name = Dotted.below outer (Dotted.qualify inner name)

theorem isUnder_top (houter : outer ≠ "") : IsUnder outer "" outer := by
  intro name
  rw [Dotted.qualify, if_neg houter, Dotted.qualify, if_pos rfl]

theorem below_ne_empty (outer name : String) : Dotted.below outer name ≠ "" := by
  intro hempty
  have hchars := congrArg String.toList hempty
  simp [Dotted.below] at hchars

/-- A qualified name is not empty. -/
theorem qualify_ne_empty (module : String) {name : String} (hname : name ≠ "") :
    Dotted.qualify module name ≠ "" := by
  rw [Dotted.qualify]
  split
  · exact hname
  · exact below_ne_empty module name

/-- Paths stay one below the other inside of a class. -/
theorem IsUnder.below (h : IsUnder outer inner path) {name : String} (hname : name ≠ "") :
    IsUnder outer (Dotted.qualify inner name) (Dotted.qualify path name) := by
  intro further
  rw [h name]
  show (if _ then _ else _) = Dotted.below outer (if _ then _ else _)
  rw [if_neg (below_ne_empty outer _), if_neg (qualify_ne_empty inner hname)]
  simp only [Dotted.below, String.append_assoc]

/-! ## The walk over a class and its body -/

/-- A class with a name, and the classes nested in it. -/
theorem classes_of_name {ds : List String} {n : SyntaxTree} (hn : t.child? .name = some n) :
    classes source outer ds t =
      ownClass source (Dotted.qualify outer (n.text source)) ds t ::
        classesInBody source (Dotted.qualify outer (n.text source)) t.children := by
  obtain ⟨kind, role, start, stop, children⟩ := t
  rw [classes]
  simp only [hn]
  rfl

variable (source outer) {statements : List SyntaxTree}

/-- Each statement of a class body defines classes by itself. -/
theorem classesAmong_cons (t : SyntaxTree) :
    classesAmong source outer (t :: statements) =
      classesAmong source outer [t] ++ classesAmong source outer statements := by
  cases t
  show _ ++ _ = (_ ++ []) ++ _
  rw [List.append_nil]

/-- A class among the statements of a body comes with those nested in it. -/
theorem classesAmong_class (hkind : t.kind = .classDefinition) :
    classesAmong source outer (t :: statements) =
      classes source outer [] t ++ classesAmong source outer statements := by
  obtain ⟨kind, role, start, stop, children⟩ := t
  obtain rfl : kind = .classDefinition := hkind
  rfl

/-- A decorated class comes with its decorators. -/
theorem classesAmong_decorated (hkind : t.kind = .decoratedDefinition) :
    classesAmong source outer (t :: statements) =
      classesDecorated source outer ((decorators source t).map (·.1)) t.children ++
        classesAmong source outer statements := by
  obtain ⟨kind, role, start, stop, children⟩ := t
  obtain rfl : kind = .decoratedDefinition := hkind
  rfl

/-- A statement that is no class, with or without decorators, defines none. -/
theorem classesAmong_other (hclass : t.kind ≠ .classDefinition)
    (hdecorated : t.kind ≠ .decoratedDefinition) :
    classesAmong source outer (t :: statements) = classesAmong source outer statements := by
  obtain ⟨kind, role, start, stop, children⟩ := t
  rw [classesAmong, List.nil_append]
  · exact hclass
  · exact hdecorated

variable {source outer}

mutual

/-- A class in the body of another is listed as by itself, and so are the classes nested in it. -/
theorem classes_under {inner path : String} (h : IsUnder outer inner path) (ds : List String) :
    ∀ t : SyntaxTree, AllParts (Named (HoldsName source)) t → t.kind = .classDefinition →
      classes source path ds t = (classes source inner ds t).map (ClassDef.under outer)
  | .node kind role start stop children, hnamed, hkind => by
      obtain ⟨n, hn, hname⟩ := exists_name_of_definition hnamed (by rw [hkind]; rfl)
      have hne : n.text source ≠ "" := fun hempty => by simp [hempty, IsIdentifier] at hname
      have hbelow := h.below hne
      have hself : ∀ name, ownClass source (Dotted.below outer name) ds
          (.node kind role start stop children) =
            ClassDef.under outer (ownClass source name ds (.node kind role start stop children)) :=
        fun _ => rfl
      rw [classes_of_name hn, classes_of_name hn, List.map_cons, h, hself, ← h]
      congr 1
      exact classesInBody_under hbelow children fun u hu => hnamed.child hu

/-- The classes in a body are the same under another path, but for their names. -/
theorem classesInBody_under {inner path : String} (h : IsUnder outer inner path) :
    ∀ ts : List SyntaxTree, (∀ t ∈ ts, AllParts (Named (HoldsName source)) t) →
      classesInBody source path ts = (classesInBody source inner ts).map (ClassDef.under outer)
  | [], _ => rfl
  | .node kind role start stop children :: parts, hnamed => by
      obtain ⟨hfirst, hrest⟩ := List.forall_mem_cons.1 hnamed
      rw [classesInBody, classesInBody]
      split
      · exact classesAmong_under h children fun u hu => hfirst.child hu
      · exact classesInBody_under h parts hrest

/-- The statements of a class body define the same classes under whatever path the body has. -/
theorem classesAmong_under {inner path : String} (h : IsUnder outer inner path) :
    ∀ ts : List SyntaxTree, (∀ t ∈ ts, AllParts (Named (HoldsName source)) t) →
      classesAmong source path ts = (classesAmong source inner ts).map (ClassDef.under outer)
  | [], _ => rfl
  | t :: statements, hnamed => by
      obtain ⟨hfirst, hrest⟩ := List.forall_mem_cons.1 hnamed
      have ih := classesAmong_under h statements hrest
      by_cases hclass : t.kind = .classDefinition
      · rw [classesAmong_class _ _ hclass, classesAmong_class _ _ hclass, List.map_append, ← ih,
          ← classes_under h [] t hfirst hclass]
      · by_cases hdecorated : t.kind = .decoratedDefinition
        · cases t with
          | node kind role start stop children =>
              have hparts := fun u hu => hfirst.child (c := u) hu
              rw [classesAmong_decorated _ _ hdecorated, classesAmong_decorated _ _ hdecorated,
                List.map_append, ← ih, SyntaxTree.children,
                ← classesDecorated_under h _ children hparts]
        · rw [classesAmong_other _ _ hclass hdecorated,
            classesAmong_other _ _ hclass hdecorated, ih]

theorem classesDecorated_under {inner path : String} (h : IsUnder outer inner path)
    (ds : List String) :
    ∀ ts : List SyntaxTree, (∀ t ∈ ts, AllParts (Named (HoldsName source)) t) →
      classesDecorated source path ds ts =
        (classesDecorated source inner ds ts).map (ClassDef.under outer)
  | [], _ => rfl
  | t :: parts, hnamed => by
      obtain ⟨hfirst, hrest⟩ := List.forall_mem_cons.1 hnamed
      rw [classesDecorated, classesDecorated]
      split
      · split
        · next hkind => exact classes_under h ds t hfirst hkind
        · rfl
      · exact classesDecorated_under h ds parts hrest

end

/-! ## The top level and a class body -/

/-- Only the class among the parts of a decorated definition is read. -/
theorem classesDecorated_eq (ds : List String) (t : SyntaxTree) :
    classesDecorated source outer ds t.children =
      (t.child? .definition).elim [] fun d =>
        if d.kind = .classDefinition then classes source outer ds d else [] := by
  rw [child?]
  induction t.children with
  | nil => rfl
  | cons d parts ih =>
      rw [classesDecorated]
      by_cases hrole : d.role = some .definition
      · simp [hrole]
      · simp only [hrole, if_false, decide_false, Bool.false_eq_true, not_false_eq_true,
          List.find?_cons_of_neg]
        exact ih

/-- A statement that can define a class: decorators may stand before it. -/
def IsClassStatement (t : SyntaxTree) : Prop :=
  t.kind = .classDefinition ∨ t.kind = .decoratedDefinition

instance : DecidablePred IsClassStatement :=
  fun _ => inferInstanceAs (Decidable (_ ∨ _))

/-- Whether the statement is decorated so that all fields of its class are keyword-only. -/
def marksKeywordOnly (source : List Char) (t : SyntaxTree) : Bool :=
  t.kind = .decoratedDefinition && decoratesKeywordOnly source (decorators source t)

/-- What a class statement defines at the top level, beside what it defines in a class body. -/
theorem classes_ofStatement_eq (hclass : IsClassStatement t) :
    (ofStatement source t).classes =
      if marksKeywordOnly source t then firstKeywordOnly (classesAmong source "" [t])
      else classesAmong source "" [t] := by
  rcases hclass with hkind | hkind
  · have hunmarked : marksKeywordOnly source t = false := by simp [marksKeywordOnly, hkind]
    rw [hunmarked, classesAmong_class _ _ hkind]
    obtain ⟨kind, role, start, stop, children⟩ := t
    obtain rfl : kind = .classDefinition := hkind
    exact (List.append_nil _).symm
  · have hmarked : marksKeywordOnly source t =
        decoratesKeywordOnly source (decorators source t) := by simp [marksKeywordOnly, hkind]
    have hdefined : ofStatement source t = decoratedDefinitions source t := by
      obtain ⟨kind, role, start, stop, children⟩ := t
      obtain rfl : kind = .decoratedDefinition := hkind
      rfl
    rw [hdefined, hmarked, classesAmong_decorated _ _ hkind, classesDecorated_eq,
      decoratedDefinitions, classesAmong, List.append_nil]
    cases t.child? .definition with
    | none => simp [firstKeywordOnly]
    | some d =>
        dsimp only [Option.elim_some]
        split
        · next hclass => rw [if_pos hclass]
        · next hfunction => simp [hfunction, firstKeywordOnly]
        · next hclass _ =>
            rw [if_neg hclass]
            exact (ite_self []).symm

/-- Which class comes first does not depend on the path before the names. -/
theorem map_firstKeywordOnly (cs : List ClassDef) :
    (firstKeywordOnly cs).map (ClassDef.under outer) =
      firstKeywordOnly (cs.map (ClassDef.under outer)) := by
  cases cs <;> rfl

/-- Making the fields of the first class keyword-only changes nothing exactly where they are so. -/
theorem firstKeywordOnly_eq_iff (cs : List ClassDef) :
    firstKeywordOnly cs = cs ↔ ∀ c ∈ cs.head?, ∀ f ∈ c.fields, f.isKeywordOnly = true := by
  cases cs with
  | nil => simp [firstKeywordOnly]
  | cons c cs =>
      have hhead : firstKeywordOnly (c :: cs) = c :: cs ↔
          c.fields.map (fun f => { f with isKeywordOnly := true }) = c.fields.map id := by
        rw [firstKeywordOnly, List.cons.injEq, and_iff_left rfl, List.map_id]
        exact ⟨fun h => congrArg ClassDef.fields h, fun h => by rw [h]⟩
      rw [hhead, List.map_inj_left]
      simp only [List.head?_cons, Option.mem_some_iff, forall_eq', id]
      refine forall₂_congr fun f _ => ?_
      constructor
      · intro h
        rw [← h]
      · intro h
        rw [← h]

/-- A class statement of a text, read at the top level and in a class body: the classes are the same
up to the path, but for the fields of the class itself where its decorators make them
keyword-only. -/
theorem classes_ofStatement (houter : outer ≠ "") (ht : IsPart t (parse source))
    (hclass : IsClassStatement t) :
    (ofStatement source t).classes.map (ClassDef.under outer) =
      if marksKeywordOnly source t then firstKeywordOnly (classesAmong source outer [t])
      else classesAmong source outer [t] := by
  have hnamed : ∀ u ∈ [t], AllParts (Named (HoldsName source)) u := by
    intro u hu
    obtain rfl := List.mem_singleton.1 hu
    exact fun v hv => named_parse source v (hv.trans ht)
  rw [classes_ofStatement_eq hclass, classesAmong_under (isUnder_top houter) [t] hnamed]
  split
  · exact map_firstKeywordOnly _
  · rfl

/-- A class statement is read alike in both places exactly where no decorator makes the fields of
the class keyword-only, or all of them are so without it. -/
theorem classes_ofStatement_iff (houter : outer ≠ "") (ht : IsPart t (parse source))
    (hclass : IsClassStatement t) :
    (ofStatement source t).classes.map (ClassDef.under outer) = classesAmong source outer [t] ↔
      (marksKeywordOnly source t = true →
        ∀ c ∈ (classesAmong source outer [t]).head?, ∀ f ∈ c.fields, f.isKeywordOnly = true) := by
  rw [classes_ofStatement houter ht hclass, ← firstKeywordOnly_eq_iff]
  split
  · next hmarked => exact ⟨fun h _ => h, fun h => h hmarked⟩
  · next hunmarked => exact ⟨fun _ hmarked => absurd hmarked hunmarked, fun _ => rfl⟩

/-- A class body without such decorators defines, under the path of the class, what its statements
define at the top level. -/
theorem classesAmong_eq_flatMap (houter : outer ≠ "") {ts : List SyntaxTree}
    (hts : ∀ t ∈ ts, IsPart t (parse source))
    (hunmarked : ∀ t ∈ ts, marksKeywordOnly source t = false) :
    classesAmong source outer ts =
      (ts.filter IsClassStatement).flatMap
        fun t => (ofStatement source t).classes.map (ClassDef.under outer) := by
  induction ts with
  | nil => rfl
  | cons t ts ih =>
      obtain ⟨ht, hts⟩ := List.forall_mem_cons.1 hts
      obtain ⟨hplain, hunmarked⟩ := List.forall_mem_cons.1 hunmarked
      have ih := ih hts hunmarked
      by_cases hclass : IsClassStatement t
      · have hself := classes_ofStatement houter ht hclass
        rw [hplain, if_neg Bool.false_ne_true] at hself
        rw [classesAmong_cons, List.filter_cons_of_pos (by simpa using hclass),
          List.flatMap_cons, hself, ih]
      · obtain ⟨hnoclass, hundecorated⟩ := not_or.1 hclass
        rw [List.filter_cons_of_neg (by simpa using hclass), ← ih]
        exact classesAmong_other source outer hnoclass hundecorated

/-- Whether each class statement of a text is read in a class body as it is at the top level. -/
def PlaceIndependent (text : String) : Prop :=
  ∀ (t : SyntaxTree) (outer : String), IsPart t (parse text.toList) → outer ≠ "" →
    IsClassStatement t →
    (ofStatement text.toList t).classes.map (ClassDef.under outer) =
      classesAmong text.toList outer [t]

/-- One decorated class, at the top level and in the body of another. -/
def shapes : String :=
  "from dataclasses import dataclass\n\n\n@dataclass(kw_only=True)\nclass Point:\n    x: int\n\n" ++
  "\nclass Shapes:\n    @dataclass(kw_only=True)\n    class Point:\n        x: int\n"

/-- The field of the nested class is not keyword-only. -/
theorem not_placeIndependent :
    (parse shapes.toList).hasError = false ∧
    (SourceModule.ofText "main.py" shapes).definitions.classes.map
        (fun c => (c.name, c.decorators, c.fields.map (·.isKeywordOnly))) =
      [("Point", ["dataclass"], [true]), ("Shapes", [], []),
        ("Shapes.Point", ["dataclass"], [false])] ∧
    ¬ PlaceIndependent shapes := by
  refine ⟨by decide +kernel, by decide +kernel, ?_⟩
  intro hright
  have hdiffers : ∃ t ∈ (parse shapes.toList).children, t.kind = .decoratedDefinition ∧
      (ofStatement shapes.toList t).classes.map (ClassDef.under "Shapes") ≠
        classesAmong shapes.toList "Shapes" [t] := by decide +kernel
  obtain ⟨t, ht, hkind, hne⟩ := hdiffers
  exact hne (hright t "Shapes" (IsPart.inside ht (IsPart.self t)) (by decide) (Or.inr hkind))

end Definition

end CallFill
