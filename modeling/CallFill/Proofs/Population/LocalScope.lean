import CallFill.Proofs.Population.FilledCall
import CallFill.Proofs.Population.PlanText
import CallFill.Proofs.Synthesis.Grammar
import Mathlib.Data.List.Forall2

/-!
# Passing variables in scope

Where variables in scope are passed, a population leaves no sentinel in the text. A missing
parameter gets the variable of its name; without one it keeps its default; and without a default it
gets a value that is written out completely, or `None` (`Synthesis.PlansLocally`). So no planned
text has the sentinel in it, at whatever depth of a value it would have stood
(`Host.localPlan_complete`).

Whether a value is written out completely is decided on its text. The text of a term has the
sentinel in it exactly if some part of the term was left open, as long as no name has one
(`Term.leavesOpen_iff`).
-/

namespace CallFill

/-! ## Texts without the sentinel -/

/-- Whether the sentinel stands nowhere in the text. -/
def IsSentinelFree (cs : List Char) : Prop :=
  ¬ sentinel.toList <:+: cs

instance (cs : List Char) : Decidable (IsSentinelFree cs) :=
  inferInstanceAs (Decidable ¬ sentinel.toList <:+: cs)

/-- A value is free of the sentinel exactly if its text does not contain it. -/
theorem Value.isSentinelFree_iff {v : Value} :
    IsSentinelFree v.text.toList ↔ v.containsSentinel = false := by
  rw [IsSentinelFree, ← occursIn_iff_infix, Bool.not_eq_true]
  rfl

namespace IsSentinelFree

variable {cs xs ys : List Char} {c : Char}

theorem nil : IsSentinelFree [] := by
  decide

/-- The sentinel does not reach over a character that is no dot. -/
theorem append_cons (hxs : IsSentinelFree xs) (hc : c ≠ '.') (hys : IsSentinelFree ys) :
    IsSentinelFree (xs ++ c :: ys) := by
  rintro ⟨front, back, h⟩
  have hdots : c ∉ sentinel.toList := by
    show c ∉ ['.', '.', '.']
    simp [hc]
  rw [List.append_assoc] at h
  rcases List.append_eq_append_iff.1 h with ⟨later, rfl, hlater⟩ | ⟨kept, hfront, hkept⟩
  · -- the sentinel starts within the first text, and ends there
    rcases List.append_eq_append_iff.1 hlater with ⟨rest, rfl, -⟩ | ⟨rest, hover, hrest⟩
    · exact hxs ⟨front, rest, List.append_assoc _ _ _⟩
    · cases rest with
      | nil =>
          rw [List.append_nil] at hover
          refine hxs ⟨front, [], ?_⟩
          rw [List.append_nil, hover]
      | cons d rest =>
          obtain ⟨rfl, -⟩ := List.cons.inj hrest
          exact hdots (hover ▸ List.mem_append_right later List.mem_cons_self)
  · cases kept with
    | nil =>
        -- the sentinel would start with the character
        have hfirst : sentinel.toList ++ back = '.' :: '.' :: '.' :: back := rfl
        rw [List.nil_append, hfirst] at hkept
        exact hc (List.cons.inj hkept).1
    | cons d kept =>
        obtain ⟨-, rfl⟩ := List.cons.inj hkept
        exact hys ⟨kept, back, List.append_assoc _ _ _⟩

theorem cons (hc : c ≠ '.') (hcs : IsSentinelFree cs) : IsSentinelFree (c :: cs) :=
  nil.append_cons hc hcs

theorem concat (hcs : IsSentinelFree cs) (hc : c ≠ '.') : IsSentinelFree (cs ++ [c]) :=
  hcs.append_cons hc nil

/-- Texts with commas between them have no sentinel if none of them has. -/
theorem intercalate {texts : List (List Char)} (h : ∀ text ∈ texts, IsSentinelFree text) :
    IsSentinelFree (", ".toList.intercalate texts) := by
  induction texts with
  | nil => exact nil
  | cons text texts ih =>
      have htext := h text List.mem_cons_self
      have hrest := ih fun other hother => h other (List.mem_cons_of_mem text hother)
      cases texts with
      | nil =>
          rw [List.intercalate_singleton]
          exact htext
      | cons next texts =>
          rw [List.intercalate_cons_cons, List.append_assoc]
          exact htext.append_cons (by decide) (hrest.cons (by decide))

end IsSentinelFree

/-! ## Terms that are written out completely -/

namespace Term

/-- Some part of the term is left open: it is the sentinel, or an alias around it. -/
def LeavesOpen (t : Term) : Prop :=
  sentinel.Occurs t ∨ ∃ name, (placeholder name).Occurs t

/-- What stands between separators stands in the whole. -/
theorem infix_intercalate {α : Type} {sep x : List α} {xs : List (List α)} (h : x ∈ xs) :
    x <:+: sep.intercalate xs := by
  induction xs with
  | nil => exact absurd h List.not_mem_nil
  | cons y ys ih =>
      cases ys with
      | nil =>
          obtain rfl := List.mem_singleton.1 h
          refine ⟨[], [], ?_⟩
          rw [List.nil_append, List.append_nil, List.intercalate_singleton]
      | cons z zs =>
          rw [List.intercalate_cons_cons]
          rcases List.mem_cons.1 h with rfl | hrest
          · exact ((List.prefix_append x sep).trans (List.prefix_append _ _)).isInfix
          · exact (ih hrest).trans (List.suffix_append _ _).isInfix

/-- The text of a part stands in the text of the term. -/
theorem render_infix_of_occurs {u t : Term} (h : u.Occurs t) :
    u.render.toList <:+: t.render.toList := by
  induction h with
  | here => exact List.infix_refl _
  | @field name fields f hf _ ih =>
      rw [toList_render_record]
      have hfield : f.2.render.toList <:+: fieldChars f := ⟨f.1.toList ++ ['='], [], by
        rw [fieldChars, List.append_nil, List.append_assoc]
        rfl⟩
      have hlist : fieldChars f <:+: closedList (fields.map fieldChars) :=
        (infix_intercalate (List.mem_map_of_mem hf)).trans (List.prefix_append _ _).isInfix
      have hcall : closedList (fields.map fieldChars) <:+:
          name.toList ++ '(' :: closedList (fields.map fieldChars) :=
        (List.suffix_append_of_suffix (List.suffix_cons _ _)).isInfix
      exact ih.trans (hfield.trans (hlist.trans hcall))
  | @listItem item _ ih =>
      rw [toList_render_list]
      exact ih.trans ⟨['['], [']'], rfl⟩
  | @setItem item _ ih =>
      rw [toList_render_set]
      exact ih.trans ⟨['\x7b'], ['\x7d'], rfl⟩
  | @tupleItem items t ht _ ih =>
      rw [toList_render_tuple]
      have hitem : t.render.toList ∈ items.map fun t => t.render.toList := List.mem_map_of_mem ht
      have hlist : t.render.toList <:+: closedList (items.map fun t => t.render.toList) :=
        (infix_intercalate hitem).trans (List.prefix_append _ _).isInfix
      exact ih.trans (hlist.trans (List.suffix_cons _ _).isInfix)
  | @key key value _ ih =>
      rw [toList_render_dict]
      exact ih.trans ⟨['\x7b'], ':' :: ' ' :: (value.render.toList ++ ['\x7d']), rfl⟩
  | @value key value _ ih =>
      rw [toList_render_dict]
      refine ih.trans ⟨'\x7b' :: (key.render.toList ++ [':', ' ']), ['\x7d'], ?_⟩
      simp

/-- A term that is left open somewhere has the sentinel in its text. -/
theorem LeavesOpen.not_isSentinelFree {t : Term} (h : t.LeavesOpen) :
    ¬ IsSentinelFree t.render.toList := by
  intro hfree
  rcases h with hsentinel | ⟨name, hplaceholder⟩
  · have hpart := render_infix_of_occurs hsentinel
    rw [render] at hpart
    exact hfree hpart
  · have hpart := render_infix_of_occurs hplaceholder
    rw [toList_render_placeholder] at hpart
    refine hfree (List.IsInfix.trans ?_ hpart)
    exact ⟨name.toList ++ ['('], [')'], by rw [List.append_assoc, List.append_assoc]; rfl⟩

mutual

/-- A term that is left open nowhere has no sentinel in its text, where its names have none. -/
theorem isSentinelFree_render (t : Term)
    (hnames : t.AllNames fun name => IsSentinelFree name.toList)
    (hclosed : ¬ t.LeavesOpen) : IsSentinelFree t.render.toList := by
  -- each form is its parts with marks between them, and no mark is a dot; only the sentinel and an
  -- alias around it have dots of their own
  cases t with
  | sentinel => exact absurd (Or.inl .here) hclosed
  | placeholder name => exact absurd (Or.inr ⟨name, .here⟩) hclosed
  | call name =>
      rw [toList_render_call]
      exact IsSentinelFree.append_cons hnames (by decide) (by decide)
  | record name fields =>
      rw [toList_render_record]
      obtain ⟨hname, hfields⟩ := hnames
      refine hname.append_cons (by decide) (IsSentinelFree.concat ?_ (by decide))
      refine IsSentinelFree.intercalate (List.forall_mem_map.2 ?_)
      refine isSentinelFree_fields fields hfields fun f hf hopen => hclosed ?_
      exact hopen.imp (.field hf) fun ⟨n, h⟩ => ⟨n, .field hf h⟩
  | list item =>
      rw [toList_render_list]
      refine ((isSentinelFree_render item hnames fun hopen => hclosed ?_).concat
        (by decide)).cons (by decide)
      exact hopen.imp .listItem fun ⟨n, h⟩ => ⟨n, .listItem h⟩
  | set item =>
      rw [toList_render_set]
      refine ((isSentinelFree_render item hnames fun hopen => hclosed ?_).concat
        (by decide)).cons (by decide)
      exact hopen.imp .setItem fun ⟨n, h⟩ => ⟨n, .setItem h⟩
  | tuple items =>
      rw [toList_render_tuple]
      refine (IsSentinelFree.concat ?_ (by decide)).cons (by decide)
      refine IsSentinelFree.intercalate (List.forall_mem_map.2 ?_)
      refine isSentinelFree_items items hnames fun t ht hopen => hclosed ?_
      exact hopen.imp (.tupleItem ht) fun ⟨n, h⟩ => ⟨n, .tupleItem ht h⟩
  | dict key value =>
      rw [toList_render_dict]
      have hkey := isSentinelFree_render key hnames.1 fun hopen =>
        hclosed (hopen.imp .key fun ⟨n, h⟩ => ⟨n, .key h⟩)
      have hvalue := isSentinelFree_render value hnames.2 fun hopen =>
        hclosed (hopen.imp .value fun ⟨n, h⟩ => ⟨n, .value h⟩)
      exact (hkey.append_cons (by decide) ((hvalue.concat (by decide)).cons (by decide))).cons
        (by decide)

/-- Fields whose values leave nothing open are free of the sentinel. -/
theorem isSentinelFree_fields (fields : List (String × Term))
    (hnames : AllNamesFields (fun name => IsSentinelFree name.toList) fields)
    (hclosed : ∀ f ∈ fields, ¬ f.2.LeavesOpen) : ∀ f ∈ fields, IsSentinelFree (fieldChars f) := by
  match fields, hnames with
  | [], _ => exact fun f hf => absurd hf List.not_mem_nil
  | (name, t) :: fields, ⟨hname, ht, hfields⟩ =>
      have hvalue := isSentinelFree_render t ht (hclosed (name, t) List.mem_cons_self)
      have hrest := isSentinelFree_fields fields hfields fun f hf =>
        hclosed f (List.mem_cons_of_mem _ hf)
      exact List.forall_mem_cons.2 ⟨IsSentinelFree.append_cons hname (by decide) hvalue, hrest⟩

theorem isSentinelFree_items (items : List Term)
    (hnames : AllNamesItems (fun name => IsSentinelFree name.toList) items)
    (hclosed : ∀ t ∈ items, ¬ t.LeavesOpen) : ∀ t ∈ items, IsSentinelFree t.render.toList := by
  match items, hnames with
  | [], _ => exact fun t ht => absurd ht List.not_mem_nil
  | t :: items, ⟨ht, hitems⟩ =>
      have hfirst := isSentinelFree_render t ht (hclosed t List.mem_cons_self)
      have hrest := isSentinelFree_items items hitems fun u hu =>
        hclosed u (List.mem_cons_of_mem _ hu)
      exact List.forall_mem_cons.2 ⟨hfirst, hrest⟩

end

/-- The sentinel in the text of a term tells that the term is left open somewhere, where no name has
it. -/
theorem leavesOpen_iff {t : Term} (hnames : t.AllNames fun name => IsSentinelFree name.toList) :
    t.LeavesOpen ↔ ¬ IsSentinelFree t.render.toList :=
  ⟨LeavesOpen.not_isSentinelFree, fun hopen => by
    by_contra hclosed
    exact hopen (isSentinelFree_render t hnames hclosed)⟩

end Term

/-! ## What is planned for a parameter -/

namespace Synthesis

variable {s : Synthesis} {scope : ScopeId} {p : Parameter} {a : PlannedArgument}

/-- What is planned for a missing parameter where variables in scope are passed. -/
inductive PlansLocally (s : Synthesis) (scope : ScopeId) (p : Parameter) : PlannedArgument → Prop
  /-- The variable of the parameter's name is passed as it is, and nothing is imported for it. -/
  | bound (hbound : (s.host.lookup p.name scope).isSome) :
      PlansLocally s scope p ⟨p.name, p.name, []⟩
  /-- Without a variable and a default, the value is written for the parameter's type, with the
  symbols it needs, if that leaves nothing open. -/
  | written (hfree : s.host.lookup p.name scope = none) (hrequired : p.hasDefault = false)
      (htext : IsSentinelFree (s.parameterValue p).text.toList)
      (hterm : ¬ (s.parameterTerm p).LeavesOpen) :
      PlansLocally s scope p ⟨p.name, (s.parameterValue p).text, (s.parameterValue p).symbols⟩
  /-- If it does, `None` stands for the value, and what the value needed is not imported. -/
  | blank (hfree : s.host.lookup p.name scope = none) (hrequired : p.hasDefault = false)
      (hopen : ¬ IsSentinelFree (s.parameterValue p).text.toList) :
      PlansLocally s scope p ⟨p.name, "None", []⟩

/-- Whether anything is planned for a missing parameter where variables in scope are passed. -/
def isPlannedLocally (s : Synthesis) (scope : ScopeId) (p : Parameter) : Bool :=
  (s.host.lookup p.name scope).isSome || !p.hasDefault

/-- A value is written for the parameter's type, or `None` stands for it. -/
theorem plansLocally_fallbackValue (hfree : s.host.lookup p.name scope = none)
    (hrequired : p.hasDefault = false) :
    s.PlansLocally scope p ⟨p.name, (s.fallbackValue p).text, (s.fallbackValue p).symbols⟩ := by
  rw [fallbackValue]
  cases hcontains : (s.parameterValue p).containsSentinel with
  | true =>
      refine PlansLocally.blank hfree hrequired fun htext => ?_
      rw [Value.isSentinelFree_iff.1 htext] at hcontains
      exact Bool.noConfusion hcontains
  | false =>
      have htext := Value.isSentinelFree_iff.2 hcontains
      refine PlansLocally.written hfree hrequired htext fun hopen => ?_
      rw [s.parameterValue_text p] at htext
      exact hopen.not_isSentinelFree htext

/-- With variables in scope, just the parameters that have a variable, or no default, get an
argument. -/
theorem plannedArgument_locally (hfinds : s.host.FindsByName)
    (hlocal : s.options.useLocalScope = true) (scope : ScopeId) (p : Parameter) :
    (s.isPlannedLocally scope p = true →
      ∃ a, s.plannedArgument scope p = some a ∧ s.PlansLocally scope p a) ∧
    (s.isPlannedLocally scope p = false → s.plannedArgument scope p = none) := by
  rw [plannedArgument, if_pos hlocal, isPlannedLocally]
  cases hlookup : s.host.lookup p.name scope with
  | some binding =>
      refine ⟨fun _ => ⟨_, rfl, ?_⟩, fun hnot => Bool.noConfusion hnot⟩
      show s.PlansLocally scope p ⟨p.name, binding.name, []⟩
      rw [hfinds p.name scope binding hlookup]
      exact .bound (by rw [hlookup]; rfl)
  | none =>
      cases hdefault : p.hasDefault with
      | true => exact ⟨fun hnot => Bool.noConfusion hnot, fun _ => rfl⟩
      | false =>
          exact ⟨fun _ => ⟨_, rfl, plansLocally_fallbackValue hlookup hdefault⟩,
            fun hnot => Bool.noConfusion hnot⟩

/-- What is planned for a parameter with the local scope in use is a name in sight, or the value
without one. -/
theorem PlansLocally.of_plannedArgument (hfinds : s.host.FindsByName)
    (hlocal : s.options.useLocalScope = true) (h : s.plannedArgument scope p = some a) :
    s.PlansLocally scope p a := by
  obtain ⟨hplanned, hskipped⟩ := s.plannedArgument_locally hfinds hlocal scope p
  cases htest : s.isPlannedLocally scope p with
  | true =>
      obtain ⟨b, hb, hplans⟩ := hplanned htest
      rw [h] at hb
      rw [Option.some.inj hb]
      exact hplans
  | false =>
      rw [hskipped htest] at h
      exact nomatch h

/-- What is planned has the sentinel nowhere, if the parameter's name has not. -/
theorem PlansLocally.isSentinelFree (h : s.PlansLocally scope p a)
    (hname : IsSentinelFree p.name.toList) :
    IsSentinelFree a.value.toList ∧ IsSentinelFree a.text.toList := by
  have hvalue : IsSentinelFree a.value.toList := by
    cases h with
    | bound => exact hname
    | written _ _ htext _ => exact htext
    | blank => exact (by decide : IsSentinelFree "None".toList)
  have haname : a.name = p.name := by cases h <;> rfl
  refine ⟨hvalue, ?_⟩
  rw [PlannedArgument.text, haname, String.toList_append, String.toList_append, List.append_assoc]
  exact hname.append_cons (by decide) hvalue

end Synthesis

/-! ## A whole plan -/

/-- Where a function gives something just for the members that pass a test, what it gives for a list
belongs to the members that pass, in their order. -/
theorem forall₂_filterMap {α β : Type} {R : α → β → Prop} {test : α → Bool} {f : α → Option β}
    (h : ∀ a, (test a = true → ∃ b, f a = some b ∧ R a b) ∧ (test a = false → f a = none))
    (as : List α) : List.Forall₂ R (as.filter test) (as.filterMap f) := by
  induction as with
  | nil => exact .nil
  | cons a as ih =>
      cases htest : test a with
      | true =>
          obtain ⟨b, hb, hrel⟩ := (h a).1 htest
          rw [List.filter_cons_of_pos htest, List.filterMap_cons_some hb]
          exact .cons hrel ih
      | false =>
          have hnone := (h a).2 htest
          rw [List.filter_cons_of_neg (by rw [htest]; exact Bool.false_ne_true),
            List.filterMap_cons_none hnone]
          exact ih

namespace Host

variable {h : Host} {c : Config} {call : CallSite} {o : Options} {sel : Selections}

/-- A missing parameter is a parameter of what is called, and can be given by keyword. -/
theorem exists_signature_of_mem_missing {p : Parameter} (hp : p ∈ h.missing call o) :
    ∃ s, h.callee call = some s ∧ p ∈ s.parameters ∧ p.isOffered = true := by
  rw [missing] at hp
  cases hcallee : h.callee call with
  | none =>
      rw [hcallee] at hp
      exact absurd hp List.not_mem_nil
  | some s =>
      rw [hcallee] at hp
      dsimp only at hp
      split at hp
      · exact absurd hp List.not_mem_nil
      · obtain ⟨hmem, hwanted⟩ := List.mem_filter.1 hp
        simp only [Bool.and_eq_true] at hwanted
        exact ⟨s, rfl, hmem, hwanted.1.1⟩

/-- **With variables in scope, nothing is left open.** The planned arguments are, in the order of
declaration, those of the missing parameters that have a variable in the call's scope or no default:
the variable under the parameter's own name, or a value that is written out completely with what it
needs, or `None`. The sentinel stands nowhere in what is inserted. -/
theorem localPlan_complete (hfinds : h.FindsByName) (c : Config) (call : CallSite) (o : Options)
    (sel : Selections) (hlocal : o.useLocalScope = true)
    (hnames : ∀ s, h.callee call = some s → ∀ p ∈ s.parameters, IsSentinelFree p.name.toList) :
    List.Forall₂ ((h.synthesis c call o sel).PlansLocally call.scope)
      ((h.missing call o).filter fun p => (h.lookup p.name call.scope).isSome || !p.hasDefault)
      (h.plan c call o sel) ∧
    (∀ s, h.callee call = some s → (h.missing call o).Sublist s.parameters) ∧
    (∀ a ∈ h.plan c call o sel, IsSentinelFree a.value.toList) ∧
    IsSentinelFree (planText (h.plan c call o sel)).toList := by
  have hplan := forall₂_filterMap
    (fun p => (h.synthesis c call o sel).plannedArgument_locally hfinds hlocal call.scope p)
    (h.missing call o)
  have hfree : ∀ a ∈ h.plan c call o sel,
      IsSentinelFree a.value.toList ∧ IsSentinelFree a.text.toList := by
    intro a ha
    obtain ⟨p, hp, hpa⟩ := List.mem_filterMap.1 ha
    obtain ⟨s, hcallee, hmem, -⟩ := exists_signature_of_mem_missing hp
    exact (Synthesis.PlansLocally.of_plannedArgument hfinds hlocal hpa).isSentinelFree
      (hnames s hcallee p hmem)
  refine ⟨hplan, ?_, fun a ha => (hfree a ha).1, ?_⟩
  · intro s hcallee
    rw [missing, hcallee]
    dsimp only
    split
    · exact List.nil_sublist _
    · exact List.filter_sublist
  · rw [planText, String.toList_intercalate, List.map_map]
    refine IsSentinelFree.intercalate (List.forall_mem_map.2 fun a ha => ?_)
    exact (hfree a ha).2

/-- A host with a class `Hammer` and a function `build(tool: Hammer, count: int, size=1, sizes:
list[int])`, and the variable `count` in every scope. -/
def workshop : Host :=
  { blank with
    shape := fun t =>
      match t.index with
      | 0 => .plain ⟨0⟩
      | 1 => .builtin none "int"
      | _ => .collection .list [⟨1⟩]
    symbol := fun _ => some {
      name := "Hammer", qualifiedName := "m.Hammer", module := "m", kind := .classType }
    lookup := fun name _ => if name = "count" then some { name, kind := .parameter } else none
    callee := fun _ => some {
      name := "build"
      parameters := [
        { name := "tool", type := some ⟨0⟩ },
        { name := "count", type := some ⟨1⟩ },
        { name := "size", type := some ⟨1⟩, hasDefault := true },
        { name := "sizes", type := some ⟨2⟩ }] } }

theorem findsByName_workshop : workshop.FindsByName := by
  intro name scope binding hbinding
  change (if name = "count" then _ else _) = some binding at hbinding
  split at hbinding
  · rw [← Option.some.inj hbinding]
  · exact nomatch hbinding

/-- The hammer is made and its class imported, the variable is passed, `size` keeps its default, and
the list, which would hold the sentinel, is not passed. -/
theorem workshop_complete :
    workshop.FindsByName ∧
    (∀ s, workshop.callee greetCall = some s →
      ∀ p ∈ s.parameters, IsSentinelFree p.name.toList) ∧
    workshop.plan Config.default greetCall (Options.withLocalScope {}) [] =
      [⟨"tool", "Hammer()", [⟨0⟩]⟩, ⟨"count", "count", []⟩, ⟨"sizes", "None", []⟩] ∧
    List.Forall₂
      ((workshop.synthesis Config.default greetCall (Options.withLocalScope {}) []).PlansLocally
        greetCall.scope)
      ((workshop.missing greetCall (Options.withLocalScope {})).filter fun p =>
        (workshop.lookup p.name greetCall.scope).isSome || !p.hasDefault)
      (workshop.plan Config.default greetCall (Options.withLocalScope {}) []) ∧
    IsSentinelFree (planText
      (workshop.plan Config.default greetCall (Options.withLocalScope {}) [])).toList := by
  have hnames : ∀ s, workshop.callee greetCall = some s →
      ∀ p ∈ s.parameters, IsSentinelFree p.name.toList := by
    intro s hs
    rw [← Option.some.inj hs]
    decide
  obtain ⟨hplans, -, -, hfree⟩ := localPlan_complete findsByName_workshop Config.default greetCall
    (Options.withLocalScope {}) [] rfl hnames
  exact ⟨findsByName_workshop, hnames, by decide +kernel, hplans, hfree⟩

end Host

end CallFill
