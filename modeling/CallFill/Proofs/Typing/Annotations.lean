import CallFill.Project
import CallFill.Proofs.Typing.Plan

/-!
# Annotations of a project

A project types the annotations of its fields and parameters one after another, on the same tables.
Whatever the typing of one annotation keeps and brings about therefore holds of all of them, on the
tables that the project ends up with (`forall_annotations`). In particular each annotation has the
type that it would be given again, on the finished tables (`settled_of_givesType`).
-/

namespace CallFill

/-- Somewhere in the project there is an annotation with this text, and this is its type. -/
inductive Project.GivesType (p : Project) : FileId → String → TypeId → Prop
  | field {c : ClassEntry} {typed : TypedClass} {f : TypedField}
      (hc : (c, typed) ∈ p.classes.zip p.typedClasses) (hf : f ∈ typed.fields) :
      p.GivesType c.file f.definition.typeText f.type
  | ofMethod {c : ClassEntry} {typed : TypedClass} {f : TypedFunction} {q : ParameterDef}
      {text : String} {type : TypeId} (hc : (c, typed) ∈ p.classes.zip p.typedClasses)
      (hf : f ∈ typed.methods) (hq : (q, some type) ∈ f.definition.parameters.zip f.types)
      (htext : q.typeText = some text) : p.GivesType c.file text type
  | ofFunction {e : FunctionEntry} {f : TypedFunction} {q : ParameterDef} {text : String}
      {type : TypeId} (he : (e, f) ∈ p.functions.zip p.typedFunctions)
      (hq : (q, some type) ∈ f.definition.parameters.zip f.types)
      (htext : q.typeText = some text) : p.GivesType e.file text type

/-- The annotations of the parameters of functions. -/
def Project.functionAnnotations (p : Project) : List (FileId × String × TypeId) :=
  (p.functions.zip p.typedFunctions).flatMap fun f =>
    (f.2.definition.parameters.zip f.2.types).filterMap fun q =>
      q.1.typeText.bind fun text => q.2.map fun type => (f.1.file, text, type)

/-- The types that a project notes for annotations are the ones it gives them. -/
theorem Project.givesType_of_mem {p : Project} {file : FileId} {text : String} {type : TypeId}
    (h : (file, text, type) ∈ p.functionAnnotations) : p.GivesType file text type := by
  obtain ⟨⟨e, f⟩, he, h⟩ := List.mem_flatMap.1 h
  obtain ⟨⟨q, type'⟩, hq, h⟩ := List.mem_filterMap.1 h
  obtain ⟨text', htext, h⟩ := Option.bind_eq_some_iff.1 h
  obtain ⟨_, rfl, h⟩ := Option.map_eq_some_iff.1 h
  cases h
  exact .ofFunction he hq htext

namespace Codebase

variable {b : Codebase} {I : Tables → Prop} {Q : FileId → String → Tables → TypeId → Prop}

/-! ## Typing an annotation twice -/

/-- A plan settles if the steps for its parts do. -/
theorem settles_run {inner : FileId → TypeExpr → StateM Tables TypeId}
    (h : ∀ file e, Settles (inner file e)) (plan : TypePlan) : Settles (plan.run inner) := by
  cases plan with
  | atom node => exact settles_enter node
  | named => exact settles_enterSymbol _ _ _ _
  | same file e => exact h file e
  | optional file e =>
      exact (h file e).bind fun _ => (settles_enter _).bind fun _ => settles_enter _
  | collection file name items =>
      exact (Settles.mapM (h file) items).bind fun _ => settles_enter _
  | union file items =>
      refine (Settles.mapM (h file) items).bind fun members => ?_
      split
      · exact settles_pure _
      · exact settles_enter _

/-- Typing an expression settles: typed again, it enters nothing new. -/
theorem settles_typeWithin (b : Codebase) (n : Nat) (file : FileId) (e : TypeExpr) :
    Settles (b.typeWithin n file e) := by
  induction n generalizing file e with
  | zero => exact settles_enter .unknown
  | succ n ih =>
      rw [typeWithin_succ]
      exact settles_run ih _

/-- Typing the parameters of a function settles. -/
theorem settles_typeFunction (b : Codebase) (file : FileId) (f : FunctionDef) :
    Settles (b.typeFunction file f) := by
  refine (Settles.mapM (fun q => ?_) f.parameters).bind fun types => settles_pure _
  rw [typeOfParameter]
  split
  · exact (b.settles_typeWithin _ file _).bind fun _ => settles_pure _
  · exact settles_pure _

/-! ## Following a plan -/

theorem forall_of_forall₂_right {α β : Type} {P : β → Prop} {as : List α} {bs : List β}
    (h : List.Forall₂ (fun _ b => P b) as bs) : ∀ b ∈ bs, P b := by
  induction h with
  | nil => exact fun b hb => absurd hb List.not_mem_nil
  | cons hb _ ih => exact List.forall_mem_cons.2 ⟨hb, ih⟩

/-- What entering a node keeps and brings about where its parts have a lasting property, following a
plan keeps and brings about where the typing of the parts gives them this property. -/
theorem ensures_run {P Q : Tables → TypeId → Prop}
    {inner : FileId → TypeExpr → StateM Tables TypeId}
    (hlasting : ∀ id, Lasting fun t => P t id) (hPQ : ∀ t id, P t id → Q t id)
    (henter : ∀ node t, I t → (∀ m ∈ node.parts, P t m) →
      I (Tables.enter node t).2 ∧ Q (Tables.enter node t).2 (Tables.enter node t).1)
    (hnone : Ensures I P (Tables.enter .noneType))
    (hsymbol : ∀ qualifiedName module kind node, (∀ symbol, (node symbol).parts = []) →
      Ensures I Q (Tables.enterSymbol qualifiedName module kind node))
    (h : ∀ file e, Ensures I P (inner file e)) (plan : TypePlan) :
    Ensures I Q (plan.run inner) := by
  have hmembers : ∀ members : List TypeId, Lasting fun t => ∀ m ∈ members, P t m :=
    fun members s t hwithin hs m hm => hlasting m s t hwithin (hs m hm)
  have hmapM : ∀ file (items : List TypeExpr),
      Ensures I (fun t members => ∀ m ∈ members, P t m) (items.mapM (inner file)) := by
    intro file items
    exact (Ensures.mapM (fun _ => hlasting) fun e _ => h file e).imp
      fun t _ => forall_of_forall₂_right
  have hparts : ∀ node, Ensures (fun t => I t ∧ ∀ m ∈ node.parts, P t m) Q
      (Tables.enter node) := by
    rintro node t ⟨hI, hnode⟩
    have hwithin := Tables.within_enter node t
    obtain ⟨hI', hQ⟩ := henter node t hI hnode
    exact ⟨hwithin, ⟨hI', hmembers node.parts _ _ hwithin hnode⟩, hQ⟩
  cases plan with
  | atom node hatom =>
      intro t ht
      obtain ⟨hwithin, ⟨hI, -⟩, hQ⟩ := hparts node t ⟨ht, by simp [hatom]⟩
      exact ⟨hwithin, hI, hQ⟩
  | named qualifiedName module kind node hatom => exact hsymbol qualifiedName module kind node hatom
  | same file e => exact (h file e).imp hPQ
  | union file items =>
      refine (hmapM file items).bind fun members => ?_
      split
      · next single => exact ensures_pure fun t ht => hPQ t single (ht.2 single List.mem_cons_self)
      · exact hparts (.union members)
  | optional file e =>
      -- the type of the expression is still known after `None` has been entered
      refine (h file e).bind fun some' => (hnone.keep (hlasting some')).bind fun none' => ?_
      rintro t ⟨⟨hI, hsome⟩, hsome', hnone'⟩
      have hboth : ∀ m ∈ [some', none'], P t m :=
        List.forall_mem_cons.2 ⟨hsome, List.forall_mem_singleton.2 hnone'⟩
      obtain ⟨hwithin, ⟨hI', hboth'⟩, hQ⟩ := hparts (.union [some', none']) t ⟨hI, hboth⟩
      have hlast := hlasting some' _ _ hwithin hsome
      exact ⟨hwithin, ⟨⟨hI', hlast⟩, hlast, hlasting none' _ _ hwithin hnone'⟩, hQ⟩
  | collection file name items =>
      exact (hmapM file items).bind fun elements =>
        hparts (.collection (CollectionKind.ofName name) name elements)

/-! ## All annotations -/

/-- The annotated parameters of a function have types with the property. -/
def ParametersTyped (Q : FileId → String → Tables → TypeId → Prop) (t : Tables) (file : FileId)
    (f : TypedFunction) : Prop :=
  List.Forall₂ (fun q type => ∀ text, q.typeText = some text →
    ∃ id, type = some id ∧ Q file text t id) f.definition.parameters f.types

/-- The annotations in a class have types with the property. -/
structure ClassTyped (Q : FileId → String → Tables → TypeId → Prop) (t : Tables) (file : FileId)
    (c : TypedClass) : Prop where
  fields : ∀ f ∈ c.fields, Q file f.definition.typeText t f.type
  methods : ∀ f ∈ c.methods, ParametersTyped Q t file f

section

variable (hQ : ∀ file text id, Lasting fun t => Q file text t id)
include hQ

/-- The types of parameters stay what they are. -/
theorem lasting_parametersTyped (file : FileId) (f : TypedFunction) :
    Lasting fun t => ParametersTyped Q t file f := by
  intro s t hwithin h
  refine h.imp fun q type htype text htext => ?_
  obtain ⟨id, hid, hid'⟩ := htype text htext
  exact ⟨id, hid, hQ file text id s t hwithin hid'⟩

/-- The types of the fields of a class stay what they are. -/
theorem lasting_classTyped (file : FileId) (c : TypedClass) :
    Lasting fun t => ClassTyped Q t file c := by
  intro s t hwithin h
  exact ⟨fun f hf => hQ _ _ _ s t hwithin (h.fields f hf),
    fun f hf => lasting_parametersTyped hQ file f s t hwithin (h.methods f hf)⟩

end

section

variable (htype : ∀ file text, Ensures I (Q file text) (b.typeOf file text))
include htype

/-- What holds of every annotation typed holds of that of a parameter. -/
theorem ensures_typeOfParameter (file : FileId) (q : ParameterDef) :
    Ensures I (fun t type => ∀ text, q.typeText = some text →
      ∃ id, type = some id ∧ Q file text t id) (b.typeOfParameter file q) := by
  rw [typeOfParameter]
  cases q.typeText with
  | none => exact ensures_pure fun t _ text htext => nomatch htext
  | some text =>
      refine (htype file text).bind fun id => ensures_pure ?_
      rintro t ⟨-, hid⟩ text' htext
      exact ⟨id, rfl, Option.some.inj htext ▸ hid⟩

theorem ensures_typeField (file : FileId) (f : FieldDef) :
    Ensures I (fun t typed => Q file typed.definition.typeText t typed.type)
      (b.typeField file f) := by
  rw [typeField]
  refine (htype file f.typeText).bind fun type t ht => ?_
  exact ⟨.refl t, ht, ht.2⟩

variable (hQ : ∀ file text id, Lasting fun t => Q file text t id)
include hQ

theorem ensures_typeFunction (file : FileId) (f : FunctionDef) :
    Ensures I (fun t typed => ParametersTyped Q t file typed) (b.typeFunction file f) := by
  refine (Ensures.mapM ?_ fun q _ => ensures_typeOfParameter htype file q).bind fun types =>
    ensures_pure fun t ht => ht.2
  intro q type s t hwithin h text htext
  obtain ⟨id, hid, hid'⟩ := h text htext
  exact ⟨id, hid, hQ file text id s t hwithin hid'⟩

theorem ensures_typeClass (c : ClassEntry) :
    Ensures I (fun t typed => ClassTyped Q t c.file typed) (b.typeClass c) := by
  have hfields : Ensures I (fun t fields => List.Forall₂ (fun _ (f : TypedField) =>
      Q c.file f.definition.typeText t f.type) c.definition.fields fields)
      (c.definition.fields.mapM (b.typeField c.file)) :=
    Ensures.mapM (fun _ _ => hQ _ _ _) fun f _ => ensures_typeField htype c.file f
  have hmethods : Ensures I (fun t methods => List.Forall₂
      (fun _ (f : TypedFunction) => ParametersTyped Q t c.file f) c.definition.methods methods)
      (c.definition.methods.mapM (b.typeFunction c.file)) :=
    Ensures.mapM (fun _ f => lasting_parametersTyped hQ c.file f)
      fun f _ => ensures_typeFunction htype hQ c.file f
  refine hfields.bind fun fields => (hmethods.keep ?_).bind fun methods => ensures_pure ?_
  · intro s t hwithin h
    exact h.imp fun _ f hf => hQ _ _ _ s t hwithin hf
  · rintro t ⟨-, hfields, hmethods⟩
    exact ⟨forall_of_forall₂_right hfields, forall_of_forall₂_right hmethods⟩

theorem ensures_typeAll :
    Ensures I (fun t typed =>
      List.Forall₂ (fun (c : ClassEntry) => ClassTyped Q t c.file) b.classes typed.1 ∧
      List.Forall₂ (fun (e : FunctionEntry) => ParametersTyped Q t e.file) b.functions typed.2)
      b.typeAll := by
  have hclasses : Ensures I (fun t classes => List.Forall₂
      (fun (c : ClassEntry) => ClassTyped Q t c.file) b.classes classes)
      (b.classes.mapM b.typeClass) :=
    Ensures.mapM (fun c typed => lasting_classTyped hQ c.file typed)
      fun c _ => ensures_typeClass htype hQ c
  have hfunctions : Ensures I (fun t functions => List.Forall₂
      (fun (e : FunctionEntry) => ParametersTyped Q t e.file) b.functions functions)
      (b.functions.mapM fun e => b.typeFunction e.file e.definition) :=
    Ensures.mapM (fun (e : FunctionEntry) f => lasting_parametersTyped hQ e.file f)
      fun e _ => ensures_typeFunction htype hQ e.file e.definition
  refine hclasses.bind fun classes => (hfunctions.keep ?_).bind fun functions => ensures_pure ?_
  · intro s t hwithin h
    exact h.imp fun c typed hc => lasting_classTyped hQ c.file typed s t hwithin hc
  · rintro t ⟨-, hclasses, hfunctions⟩
    exact ⟨hclasses, hfunctions⟩

end

end Codebase

namespace Project

open Codebase

variable {b : Codebase} {I : Tables → Prop} {Q : FileId → String → Tables → TypeId → Prop}
  {file : FileId} {text : String} {type : TypeId}

/-- The tables that a project ends up with. -/
def tables (p : Project) : Tables where
  symbols := p.symbols
  types := p.types

/-- What the typing of one annotation keeps holds of the finished tables, and what it brings about
holds of every annotation there. -/
theorem forall_annotations (hQ : ∀ file text id, Lasting fun t => Q file text t id)
    (htype : ∀ file text, Ensures I (Q file text) (b.typeOf file text))
    (hstart : I { symbols := b.symbols }) :
    I (ofCodebase b).tables ∧ ∀ file text type, (ofCodebase b).GivesType file text type →
      Q file text (ofCodebase b).tables type := by
  obtain ⟨-, hI, hclasses, hfunctions⟩ := ensures_typeAll htype hQ _ hstart
  refine ⟨hI, fun file text type h => ?_⟩
  have hparameter : ∀ {file : FileId} {f : TypedFunction} {q : ParameterDef} {text : String}
      {type : TypeId}, ParametersTyped Q (ofCodebase b).tables file f →
      (q, some type) ∈ f.definition.parameters.zip f.types → q.typeText = some text →
      Q file text (ofCodebase b).tables type := by
    intro file f q text type hf hq htext
    obtain ⟨id, hid, hid'⟩ := (List.forall₂_iff_zip.1 hf).2 hq text htext
    exact Option.some.inj hid ▸ hid'
  cases h with
  | field hc hf => exact ((List.forall₂_iff_zip.1 hclasses).2 hc).fields _ hf
  | ofMethod hc hf hq htext =>
      exact hparameter (((List.forall₂_iff_zip.1 hclasses).2 hc).methods _ hf) hq htext
  | ofFunction he hq htext => exact hparameter ((List.forall₂_iff_zip.1 hfunctions).2 he) hq htext

/-- Typing an annotation of the project once more gives its type and adds nothing. -/
theorem settled_of_givesType (h : (ofCodebase b).GivesType file text type) :
    b.typeOf file text (ofCodebase b).tables = (type, (ofCodebase b).tables) := by
  have hsettles : ∀ file text, Settles (b.typeOf file text) :=
    fun file text => b.settles_typeWithin _ file _
  refine (forall_annotations (I := fun _ => True)
    (Q := fun file text t id => b.typeOf file text t = (id, t)) ?_ ?_ trivial).2 file text type h
  · intro file text id s t hwithin hs
    have hagain := (hsettles file text s).2 t
    rw [hs] at hagain
    exact hagain hwithin
  · intro file text t _
    obtain ⟨hwithin, hagain⟩ := hsettles file text t
    exact ⟨hwithin, trivial, hagain _ (.refl _)⟩

end Project

end CallFill
