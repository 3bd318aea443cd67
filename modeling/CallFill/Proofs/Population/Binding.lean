import CallFill.Proofs.Population.FilledCall
import Mathlib.Data.List.Nodup

/-!
# How a filled call binds

A call binds its parameters one argument at a time: a positional argument goes to the next
parameter that takes one, and the surplus to the variadic parameter; a keyword goes to the parameter
it names, if that one takes keywords, and is a stray otherwise. A call is free of conflicts if no
keyword comes twice or names a parameter that has a positional argument, and no positional argument
is left over without a variadic parameter.

What is missing is computed otherwise, from a filter, a prefix and a set of names. Where parameters
have distinct names the two agree on what a parameter is given, so a call free of conflicts stays
free of them when it is filled, and no required parameter that may be offered stays without its
argument.
-/

namespace CallFill

namespace Parameter

/-- Whether a positional argument can go to the parameter. -/
def takesPosition (p : Parameter) : Bool :=
  !p.isVariadic && !p.isKeywordOnly

/-- Whether a keyword can go to the parameter. -/
def takesKeyword (p : Parameter) : Bool :=
  !p.isVariadic && !p.isPositionalOnly

end Parameter

/-- A parameter and how many arguments it has been given. -/
structure Slot where
  parameter : Parameter
  given : Nat := 0
  deriving DecidableEq, Repr

namespace Slot

/-- The slot with so many more arguments. -/
def give (slot : Slot) (n : Nat) : Slot :=
  { slot with given := slot.given + n }

/-- Whether a keyword goes to the slot. -/
def answers (slot : Slot) (name : String) : Bool :=
  slot.parameter.takesKeyword && slot.parameter.name = name

end Slot

/-- Where the arguments of a call go. -/
structure Frame where
  slots : List Slot
  /-- How many positional arguments no slot has taken. -/
  surplus : Nat := 0
  /-- The keywords that no slot has taken. -/
  strays : List String := []
  deriving DecidableEq, Repr

namespace Frame

/-- Positional arguments go to the slots that take them, one to each; the rest comes second. -/
def placeInOrder : Nat → List Slot → List Slot × Nat
  | n, [] => ([], n)
  | 0, slot :: slots => (slot :: slots, 0)
  | n + 1, slot :: slots =>
    if slot.parameter.takesPosition then
      let placed := placeInOrder n slots
      (slot.give 1 :: placed.1, placed.2)
    else
      let placed := placeInOrder (n + 1) slots
      (slot :: placed.1, placed.2)

/-- The frame in which no argument has been given. -/
def empty (parameters : List Parameter) : Frame where
  slots := parameters.map fun p => { parameter := p }

/-- The frame after positional arguments. -/
def placePositional (f : Frame) (n : Nat) : Frame :=
  let placed := placeInOrder n f.slots
  { f with slots := placed.1, surplus := f.surplus + placed.2 }

/-- The frame after a keyword. -/
def placeKeyword (f : Frame) (name : String) : Frame :=
  if f.slots.any (·.answers name) then
    { f with slots := f.slots.map fun slot => if slot.answers name then slot.give 1 else slot }
  else { f with strays := f.strays ++ [name] }

end Frame

namespace Signature

/-- The frame of a call after its positional arguments. -/
def bindPositional (s : Signature) (call : CallSite) : Frame :=
  (Frame.empty s.parameters).placePositional call.positional

/-- The frame of a call. -/
def bind (s : Signature) (call : CallSite) : Frame :=
  call.keywords.foldl Frame.placeKeyword (s.bindPositional call)

/-- A call whose arguments do not conflict, though some may be missing. -/
structure ConflictFree (s : Signature) (call : CallSite) : Prop where
  /-- No keyword is repeated. -/
  distinct : call.keywords.Nodup
  /-- No keyword names a parameter that has a positional argument. -/
  unplaced : ∀ name ∈ call.keywords, ∀ slot ∈ (s.bindPositional call).slots,
    slot.answers name → slot.given = 0
  /-- Positional arguments are left over only for a variadic parameter. -/
  room : (s.bindPositional call).surplus = 0 ∨ ∃ p ∈ s.parameters, p.isVariadic

end Signature

/-! ## What a parameter is given -/

namespace Frame

/-- One keyword, for every slot. -/
theorem slots_placeKeyword (f : Frame) (name : String) :
    (f.placeKeyword name).slots =
      f.slots.map fun slot => if slot.answers name then slot.give 1 else slot := by
  rw [placeKeyword]
  split
  · rfl
  · next hnone =>
      symm
      rw [List.any_eq_true] at hnone
      refine (List.map_congr_left fun slot hslot => ?_).trans (List.map_id _)
      exact if_neg fun hanswers => hnone ⟨slot, hslot, hanswers⟩

/-- Keywords one after the other: a slot that takes keywords gets one argument for each time its
name occurs. -/
theorem slots_placeKeywords (f : Frame) (names : List String) :
    (names.foldl placeKeyword f).slots =
      f.slots.map fun slot =>
        slot.give (if slot.parameter.takesKeyword then names.count slot.parameter.name else 0) := by
  induction names generalizing f with
  | nil =>
      refine ((List.map_congr_left fun slot _ => ?_).trans (List.map_id _)).symm
      rw [List.count_nil, ite_self]
      rfl
  | cons name names ih =>
      rw [List.foldl_cons, ih, slots_placeKeyword, List.map_map]
      refine List.map_congr_left fun slot _ => ?_
      show (if slot.answers name then slot.give 1 else slot).give _ = _
      rw [List.count_cons]
      cases htakes : slot.parameter.takesKeyword with
      | false => simp [Slot.answers, Slot.give, htakes]
      | true =>
          by_cases hname : slot.parameter.name = name
          · simp [Slot.answers, Slot.give, htakes, hname]
            omega
          · simp [Slot.answers, Slot.give, htakes, hname, Ne.symm hname]

/-- Positional arguments, for parameters of distinct names: the first ones that take a position get
one each. -/
theorem placeInOrder_empty (parameters : List Parameter) (n : Nat)
    (hnames : (parameters.map Parameter.name).Nodup) :
    (placeInOrder n (empty parameters).slots).1 =
      parameters.map fun p => ⟨p, if p.name ∈
        ((parameters.filter Parameter.takesPosition).take n).map Parameter.name then 1 else 0⟩ := by
  induction parameters generalizing n with
  | nil => rfl
  | cons p parameters ih =>
      obtain ⟨hp, hrest⟩ := List.nodup_cons.1 hnames
      have hfresh : ∀ m, p.name ∉
          ((parameters.filter Parameter.takesPosition).take m).map Parameter.name := by
        intro m hmem
        obtain ⟨q, hq, hname⟩ := List.mem_map.1 hmem
        exact hp (hname ▸ List.mem_map_of_mem (List.mem_filter.1 (List.mem_of_mem_take hq)).1)
      show (placeInOrder n (⟨p, 0⟩ :: (empty parameters).slots)).1 = _
      rw [List.map_cons, List.filter_cons]
      cases n with
      | zero => simp [placeInOrder, empty]
      | succ n =>
          rw [placeInOrder]
          cases htakes : p.takesPosition with
          | false =>
              simp only [Bool.false_eq_true, if_false]
              rw [ih (n + 1) hrest, if_neg (hfresh (n + 1))]
          | true =>
              simp only [if_true]
              rw [ih n hrest, List.take_succ_cons, List.map_cons, if_pos List.mem_cons_self]
              refine congrArg _ (List.map_congr_left fun q hq => ?_)
              have hne : q.name ≠ p.name := fun hname => hp (hname ▸ List.mem_map_of_mem hq)
              simp only [List.mem_cons, hne, false_or]

end Frame

namespace Signature

variable {s : Signature} {call : CallSite}

/-- How many arguments a call gives to a parameter: one by position, if it is among the first that
take one, and one for each keyword of its name. -/
def given (s : Signature) (call : CallSite) (p : Parameter) : Nat :=
  (if p.name ∈ s.boundByPosition call.positional then 1 else 0) +
    if p.takesKeyword then call.keywords.count p.name else 0

theorem slots_bindPositional (call : CallSite) (hnames : (s.parameters.map Parameter.name).Nodup) :
    (s.bindPositional call).slots = s.parameters.map fun p =>
      ⟨p, if p.name ∈ s.boundByPosition call.positional then 1 else 0⟩ :=
  Frame.placeInOrder_empty s.parameters call.positional hnames

/-- Argument by argument, a call gives every parameter what the filter and the set of names say. -/
theorem slots_bind (call : CallSite) (hnames : (s.parameters.map Parameter.name).Nodup) :
    (s.bind call).slots = s.parameters.map fun p => ⟨p, s.given call p⟩ := by
  rw [bind, Frame.slots_placeKeywords, slots_bindPositional call hnames, List.map_map]
  rfl

/-- Without conflicts, no parameter is given two arguments. -/
theorem ConflictFree.given_le_one (hfree : s.ConflictFree call)
    (hnames : (s.parameters.map Parameter.name).Nodup) {p : Parameter} (hp : p ∈ s.parameters) :
    s.given call p ≤ 1 := by
  have hcount : call.keywords.count p.name ≤ 1 :=
    List.nodup_iff_count_le_one.1 hfree.distinct p.name
  rw [given]
  by_cases hposition : p.name ∈ s.boundByPosition call.positional
  · rw [if_pos hposition]
    cases htakes : p.takesKeyword with
    | false => exact Nat.le_refl 1
    | true =>
        -- a keyword of this name would meet the positional argument
        have hslot : (⟨p, 1⟩ : Slot) ∈ (s.bindPositional call).slots := by
          rw [slots_bindPositional call hnames]
          exact List.mem_map.2 ⟨p, hp, by rw [if_pos hposition]⟩
        have hanswers : (⟨p, 1⟩ : Slot).answers p.name = true := by
          simp [Slot.answers, htakes]
        have hno : p.name ∉ call.keywords := fun hkeyword =>
          Nat.one_ne_zero (hfree.unplaced p.name hkeyword _ hslot hanswers)
        exact Nat.le_of_eq (by rw [if_pos rfl, List.count_eq_zero_of_not_mem hno])
  · rw [if_neg hposition, Nat.zero_add]
    split
    · exact hcount
    · exact Nat.zero_le 1

/-- A parameter that takes keywords is given nothing exactly when its name is not bound. -/
theorem given_eq_zero_iff {p : Parameter} (htakes : p.takesKeyword = true) :
    s.given call p = 0 ↔ p.name ∉ s.boundNames call := by
  rw [given, htakes, if_pos rfl, Nat.add_eq_zero_iff, List.count_eq_zero, boundNames,
    List.mem_append, not_or]
  refine and_congr_left fun _ => ?_
  constructor
  · intro hzero hposition
    rw [if_pos hposition] at hzero
    exact Nat.one_ne_zero hzero
  · intro hposition
    exact if_neg hposition

end Signature

/-! ## What filling a call gives -/

theorem Parameter.isOffered_iff {p : Parameter} :
    p.isOffered = true ↔ p.isVariadic = false ∧ p.isPositionalOnly = false ∧
      p.name.toList.head? ≠ some '_' := by
  simp [Parameter.isOffered, and_assoc]

theorem Parameter.takesKeyword_of_isOffered {p : Parameter} (h : p.isOffered = true) :
    p.takesKeyword = true :=
  (Bool.and_eq_true_iff.1 h).1

namespace Host

variable {h : Host} {c : Config} {s : Signature} {call : CallSite} {o : Options} {sel : Selections}

/-- What is missing from a call of a known callee, without unpacking. -/
theorem mem_missing_iff (hcallee : h.callee call = some s) (hpacked : call.hasUnpacking = false)
    {p : Parameter} :
    p ∈ h.missing call o ↔ p ∈ s.parameters ∧ p.isOffered = true ∧
      p.name ∉ s.boundNames call ∧ (o.includesDefaulted || !p.hasDefault) = true := by
  rw [missing, hcallee]
  simp [hpacked, and_assoc]

/-- A planned name is the name of a parameter that takes keywords and has been given nothing. -/
theorem exists_parameter_of_mem_plannedNames (hcallee : h.callee call = some s)
    (hpacked : call.hasUnpacking = false) {name : String}
    (hname : name ∈ h.plannedNames c call o sel) :
    ∃ p ∈ s.parameters, p.name = name ∧ p.takesKeyword = true ∧ s.given call p = 0 := by
  have hmissing := (plannedNames_sublist h c call o sel).subset hname
  obtain ⟨p, hp, rfl⟩ := List.mem_map.1 hmissing
  obtain ⟨hmem, hoffered, hunbound, -⟩ := (mem_missing_iff hcallee hpacked).1 hp
  have htakes := p.takesKeyword_of_isOffered hoffered
  exact ⟨p, hmem, rfl, htakes, (Signature.given_eq_zero_iff htakes).2 hunbound⟩

/-- Planned names follow the order of declaration. -/
theorem plannedNames_sublist_parameters (hcallee : h.callee call = some s) :
    (h.plannedNames c call o sel).Sublist (s.parameters.map Parameter.name) := by
  refine (plannedNames_sublist h c call o sel).trans (List.Sublist.map _ ?_)
  rw [missing, hcallee]
  dsimp only
  split
  · exact List.nil_sublist _
  · exact List.filter_sublist

/-- A required parameter that is offered and not bound is planned, whatever the options. -/
theorem mem_plannedNames_of_required (hcallee : h.callee call = some s)
    (hpacked : call.hasUnpacking = false) {p : Parameter} (hp : p ∈ s.parameters)
    (hoffered : p.isOffered = true) (hrequired : p.hasDefault = false)
    (hunbound : p.name ∉ s.boundNames call) : p.name ∈ h.plannedNames c call o sel := by
  have hmissing : p ∈ h.missing call o := by
    refine (mem_missing_iff hcallee hpacked).2 ⟨hp, hoffered, hunbound, ?_⟩
    rw [hrequired]
    exact Bool.or_true _
  obtain ⟨a, ha⟩ := (h.synthesis c call o sel).exists_plannedArgument call.scope
    (Or.inr hrequired)
  exact mem_plannedNames hmissing ha

/-- A call without conflicts has none when it is filled. -/
theorem conflictFree_filled (hcallee : h.callee call = some s)
    (hnames : (s.parameters.map Parameter.name).Nodup) (hpacked : call.hasUnpacking = false)
    (hfree : s.ConflictFree call) : s.ConflictFree (h.filled c call o sel) := by
  have hplanned : ∀ name ∈ h.plannedNames c call o sel,
      ∃ p ∈ s.parameters, p.name = name ∧ p.takesKeyword = true ∧ s.given call p = 0 :=
    fun name hname => exists_parameter_of_mem_plannedNames hcallee hpacked hname
  refine ⟨?_, ?_, hfree.room⟩
  · refine List.nodup_append'.2 ⟨hfree.distinct, ?_, ?_⟩
    · exact (plannedNames_sublist_parameters hcallee).nodup hnames
    · intro name hkeyword hname
      obtain ⟨p, -, rfl, htakes, hzero⟩ := hplanned name hname
      exact (Signature.given_eq_zero_iff htakes).1 hzero (List.mem_append_right _ hkeyword)
  · intro name hkeyword slot hslot hanswers
    rcases List.mem_append.1 hkeyword with hold | hnew
    · exact hfree.unplaced name hold slot hslot hanswers
    · -- a planned parameter has no positional argument
      obtain ⟨p, hp, rfl, htakes, hzero⟩ := hplanned name hnew
      have hslots : slot ∈ (s.bindPositional call).slots := hslot
      rw [Signature.slots_bindPositional call hnames] at hslots
      obtain ⟨q, hq, rfl⟩ := List.mem_map.1 hslots
      have hname : q.name = p.name := of_decide_eq_true (Bool.and_eq_true_iff.1 hanswers).2
      have hunbound := (Signature.given_eq_zero_iff htakes).1 hzero
      rw [Signature.boundNames, List.mem_append, not_or, ← hname] at hunbound
      exact if_neg hunbound.1

/-- A required parameter that is offered is given exactly one argument in the filled call. -/
theorem given_filled_eq_one (hcallee : h.callee call = some s)
    (hnames : (s.parameters.map Parameter.name).Nodup) (hpacked : call.hasUnpacking = false)
    (hfree : s.ConflictFree call) {p : Parameter} (hp : p ∈ s.parameters)
    (hoffered : p.isOffered = true) (hrequired : p.hasDefault = false) :
    s.given (h.filled c call o sel) p = 1 := by
  have hle : s.given (h.filled c call o sel) p ≤ 1 :=
    (conflictFree_filled hcallee hnames hpacked hfree).given_le_one hnames hp
  have hne : s.given (h.filled c call o sel) p ≠ 0 := by
    intro hzero
    have hunbound := (Signature.given_eq_zero_iff (p.takesKeyword_of_isOffered hoffered)).1 hzero
    -- what the call bound before and what is planned is bound now
    rw [Signature.boundNames, filled, CallSite.withKeywords, ← List.append_assoc,
      List.mem_append, not_or] at hunbound
    exact hunbound.2
      (mem_plannedNames_of_required hcallee hpacked hp hoffered hrequired hunbound.1)
  omega

/-- **A filled call binds.** If the parameters have distinct names and the call has no conflicts,
then in the filled call no parameter is given two arguments, a planned keyword goes to a parameter
that takes keywords and had nothing, the planned keywords are in the order of declaration, and every
required parameter that can be given by keyword, and whose name does not begin with an underscore,
is given exactly one argument. -/
theorem filled_binds (c : Config) (o : Options) (sel : Selections)
    (hcallee : h.callee call = some s) (hnames : (s.parameters.map Parameter.name).Nodup)
    (hpacked : call.hasUnpacking = false) (hfree : s.ConflictFree call) :
    (s.bind (h.filled c call o sel)).slots.map Slot.parameter = s.parameters ∧
    s.ConflictFree (h.filled c call o sel) ∧
    (∀ slot ∈ (s.bind (h.filled c call o sel)).slots, slot.given ≤ 1) ∧
    (∀ name ∈ h.plannedNames c call o sel, ∃ slot ∈ (s.bind call).slots,
      slot.parameter.name = name ∧ slot.given = 0 ∧
      slot.parameter.isPositionalOnly = false ∧ slot.parameter.isVariadic = false) ∧
    (h.plannedNames c call o sel).Sublist (s.parameters.map Parameter.name) ∧
    ∀ slot ∈ (s.bind (h.filled c call o sel)).slots,
      slot.parameter.hasDefault = false → slot.parameter.isVariadic = false →
      slot.parameter.isPositionalOnly = false → slot.parameter.name.toList.head? ≠ some '_' →
      slot.given = 1 := by
  have hfilled : s.ConflictFree (h.filled c call o sel) :=
    conflictFree_filled hcallee hnames hpacked hfree
  have hslots := Signature.slots_bind (h.filled c call o sel) hnames
  refine ⟨?_, hfilled, ?_, ?_, plannedNames_sublist_parameters hcallee, ?_⟩
  · rw [hslots, List.map_map]
    exact List.map_id _
  · intro slot hslot
    rw [hslots] at hslot
    obtain ⟨p, hp, rfl⟩ := List.mem_map.1 hslot
    exact hfilled.given_le_one hnames hp
  · intro name hname
    obtain ⟨p, hp, hpname, htakes, hzero⟩ :=
      exists_parameter_of_mem_plannedNames hcallee hpacked hname
    rw [Parameter.takesKeyword, Bool.and_eq_true, Bool.not_eq_true', Bool.not_eq_true'] at htakes
    refine ⟨⟨p, s.given call p⟩, ?_, hpname, hzero, htakes.2, htakes.1⟩
    rw [Signature.slots_bind call hnames]
    exact List.mem_map_of_mem hp
  · intro slot hslot hrequired hvariadic hpositional hunderscore
    rw [hslots] at hslot
    obtain ⟨p, hp, rfl⟩ := List.mem_map.1 hslot
    -- what is required and may be given by name is offered, so it was missing or had its argument
    have hoffered : p.isOffered = true :=
      Parameter.isOffered_iff.2 ⟨hvariadic, hpositional, hunderscore⟩
    exact given_filled_eq_one hcallee hnames hpacked hfree hp hoffered hrequired

/-- The function `ship(item, /, to, via='sea', *notes, count, fragile=False, _trace)`. -/
def ship : Signature where
  name := "ship"
  parameters := [
    { name := "item", isPositionalOnly := true },
    { name := "to" },
    { name := "via", hasDefault := true },
    { name := "notes", isVariadic := true },
    { name := "count", isKeywordOnly := true },
    { name := "fragile", hasDefault := true, isKeywordOnly := true },
    { name := "_trace", isKeywordOnly := true }]

/-- A host that knows nothing but this function. -/
def shipping : Host :=
  { blank with callee := fun _ => some ship }

/-- The call `ship(box, home, fragile=True)`. -/
def shipCall : CallSite :=
  { greetCall with callee := "ship", positional := 2, keywords := ["fragile"] }

/-- The call with its required argument. -/
def shipFilled : CallSite :=
  shipping.filled Config.default shipCall Options.requiredOnly []

theorem shipping_binds :
    (ship.bind shipFilled).slots.map Slot.given = [1, 1, 0, 0, 1, 1, 0] ∧
    shipping.callee shipCall = some ship ∧ (ship.parameters.map Parameter.name).Nodup ∧
    shipCall.hasUnpacking = false ∧ ship.ConflictFree shipCall ∧
    (ship.bind shipFilled).slots.map Slot.parameter = ship.parameters ∧
    ship.ConflictFree shipFilled ∧
    (∀ slot ∈ (ship.bind shipFilled).slots, slot.given ≤ 1) ∧
    (∀ name ∈ shipping.plannedNames Config.default shipCall Options.requiredOnly [],
      ∃ slot ∈ (ship.bind shipCall).slots, slot.parameter.name = name ∧ slot.given = 0 ∧
      slot.parameter.isPositionalOnly = false ∧ slot.parameter.isVariadic = false) ∧
    (shipping.plannedNames Config.default shipCall Options.requiredOnly []).Sublist
      (ship.parameters.map Parameter.name) ∧
    ∀ slot ∈ (ship.bind shipFilled).slots,
      slot.parameter.hasDefault = false → slot.parameter.isVariadic = false →
      slot.parameter.isPositionalOnly = false → slot.parameter.name.toList.head? ≠ some '_' →
      slot.given = 1 := by
  have hnames : (ship.parameters.map Parameter.name).Nodup := by decide
  have hfree : ship.ConflictFree shipCall := ⟨by decide, by decide, by decide⟩
  exact ⟨by decide +kernel, rfl, hnames, rfl, hfree,
    filled_binds Config.default Options.requiredOnly [] rfl hnames rfl hfree⟩

end Host

end CallFill
