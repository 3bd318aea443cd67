import CallFill.Proofs.Population.FilledCall
import CallFill.Proofs.Population.Interview
import CallFill.Proofs.Synthesis.Bounds
import CallFill.Proofs.Union.Signature
import Mathlib

/-!
# The chosen member of a union

An answer travels from the question to the value as two texts, the signature of the union and the
name of the chosen option. The value is written for the parameter's own leaf of that name, which
may be another type than the one that was shown: an answer counts for every later union with the
same members, in whatever order.

What is written is the value of the chosen leaf, with the alias around it where the parameter is
annotated with an alias and the value is the sentinel. Unions whose names differ may share a
signature where a name contains the separator; then the first answer also counts for the second
union, which is never asked about, and if it names no leaf there the choice falls back to the
default.
-/

namespace CallFill

/-- The value as the argument of a name. -/
def Value.asArgument (v : Value) (name : String) : PlannedArgument :=
  ⟨name, v.text, v.symbols⟩

namespace Host

variable (h : Host) (c : Config)

/-- The leaves of a parameter's union, none if its type is no union. -/
def memberTypes (p : Parameter) : List TypeId :=
  match p.type.bind fun t => (h.shape t).members? with
  | some members => Union.flatten h members
  | none => []

/-- The rendered names of the leaves of a parameter's union. -/
def memberNames (p : Parameter) : List String :=
  (h.memberTypes p).map h.displayName

/-- Whether the unions of two parameters have the same set of names. -/
def sameMembers (p q : Parameter) : Bool :=
  (h.memberNames p).all (h.memberNames q).contains &&
    (h.memberNames q).all (h.memberNames p).contains

/-- Among missing parameters, the signature of a parameter's union tells its set of names: no
ambiguous union with other names shares it. -/
def SignatureTells (missing : List Parameter) (p : Parameter) : Prop :=
  ∀ q ∈ missing, ∀ r r', h.requestFor c p = some r → h.requestFor c q = some r' →
    r'.signature = r.signature → h.sameMembers q p = true

/-- The question about the first ambiguous union with the names of a parameter's union. -/
def firstAlike (missing : List Parameter) (p : Parameter) : Option ChoiceRequest :=
  (missing.find? fun q => (h.requestFor c q).isSome && h.sameMembers q p).bind (h.requestFor c)

/-- The leaf of a parameter's union with the name of the option that was chosen there. -/
def chosenMember (missing : List Parameter) (answers : Answers) (p : Parameter) : Option TypeId :=
  match (h.firstAlike c missing p).bind fun r => answers.find? fun a => a.1 = r with
  | some (_, chosen) => (h.memberTypes p).find? fun t => h.displayName t = h.displayName chosen
  | none => none

variable {h c}

theorem sameMembers_iff {p q : Parameter} :
    h.sameMembers p q = true ↔ ∀ name, name ∈ h.memberNames p ↔ name ∈ h.memberNames q := by
  rw [sameMembers, Bool.and_eq_true, List.all_eq_true, List.all_eq_true]
  simp only [List.contains_iff_mem]
  constructor
  · rintro ⟨hpq, hqp⟩ name
    exact ⟨hpq name, hqp name⟩
  · intro hsame
    exact ⟨fun name => (hsame name).1, fun name => (hsame name).2⟩

/-- A question is about the leaves of its parameter's union. -/
theorem exists_members_of_requestFor {p : Parameter} {r : ChoiceRequest}
    (hr : h.requestFor c p = some r) :
    ∃ type members, p.type = some type ∧ (h.shape type).members? = some members ∧
      h.memberTypes p = Union.flatten h members ∧ r.signature = Union.signature h members ∧
      Union.resolveFlat h c (Union.flatten h members) p.defaultText = .choice r.options := by
  rw [requestFor] at hr
  cases hmembers : p.type.bind fun t => (h.shape t).members? with
  | none =>
      rw [hmembers] at hr
      exact nomatch hr
  | some members =>
      rw [hmembers] at hr
      obtain ⟨type, htype, hshape⟩ := Option.bind_eq_some_iff.1 hmembers
      have htypes : h.memberTypes p = Union.flatten h members := by rw [memberTypes, hmembers]
      dsimp only at hr
      rw [Union.request] at hr
      split at hr
      · next options hoptions =>
          obtain rfl := Option.some.inj hr
          exact ⟨type, members, htype, hshape, htypes, rfl, hoptions⟩
      · exact nomatch hr

theorem mem_memberTypes_of_mem_options {p : Parameter} {r : ChoiceRequest} {t : TypeId}
    (hr : h.requestFor c p = some r) (ht : t ∈ r.options) : t ∈ h.memberTypes p := by
  obtain ⟨_, members, -, -, htypes, -, hchoice⟩ := exists_members_of_requestFor hr
  have hmem : t ∈ (Union.resolveFlat h c (Union.flatten h members) p.defaultText).types := by
    rw [hchoice]
    exact ht
  rw [htypes]
  exact Union.mem_of_mem_resolveFlat hmem

theorem nodup_memberNames (h : Host) (p : Parameter) : (h.memberNames p).Nodup := by
  rw [memberNames, memberTypes]
  split
  · exact Union.nodup_names h _
  · exact List.nodup_nil

/-- The name of a leaf tells it apart. -/
theorem eq_of_displayName_eq {p : Parameter} {t u : TypeId} (ht : t ∈ h.memberTypes p)
    (hu : u ∈ h.memberTypes p) (hname : h.displayName u = h.displayName t) : u = t :=
  List.inj_on_of_nodup_map (nodup_memberNames h p) hu ht hname

variable {p q : Parameter} {r r' : ChoiceRequest}

theorem signature_eq_of_sameMembers (hp : h.requestFor c p = some r)
    (hq : h.requestFor c q = some r') (hsame : h.sameMembers q p = true) :
    r'.signature = r.signature := by
  obtain ⟨_, members, -, -, htypes, hsig, -⟩ := exists_members_of_requestFor hp
  obtain ⟨_, others, -, -, htypes', hsig', -⟩ := exists_members_of_requestFor hq
  rw [hsig, hsig']
  refine Union.signature_congr fun name => ?_
  have hname := sameMembers_iff.1 hsame name
  rw [memberNames, memberNames, htypes, htypes'] at hname
  exact hname

/-- Where no name contains the separator, the signature tells the names. -/
theorem signatureTells_of_plain {missing : List Parameter}
    (hplain : ∀ q ∈ missing, ∀ name ∈ h.memberNames q, '|' ∉ name.toList) (hmem : p ∈ missing) :
    h.SignatureTells c missing p := by
  intro q hq r r' hr hr' hsig
  obtain ⟨_, members, -, -, htypes, hsigp, hchoice⟩ := exists_members_of_requestFor hr
  obtain ⟨_, others, -, -, htypes', hsigq, hchoice'⟩ := exists_members_of_requestFor hr'
  have hplainp := hplain p hmem
  have hplainq := hplain q hq
  rw [memberNames, htypes] at hplainp
  rw [memberNames, htypes'] at hplainq
  rw [hsigp, hsigq] at hsig
  refine sameMembers_iff.2 fun name => ?_
  rw [memberNames, memberNames, htypes, htypes']
  exact Union.mem_names_iff_of_signature_eq (Union.ne_nil_of_choice hchoice')
    (Union.ne_nil_of_choice hchoice) hplainq hplainp hsig name

/-! ## From the question to the answer -/

section Asked

variable {τ : Type} {chooser : Chooser τ} {missing : List Parameter} {answers : Answers}
  {asked asked' : τ}

/-- The answers are found under the signatures of their questions. -/
theorem get?_selectionsOf
    (hasked : h.interview chooser (h.questions c missing) asked = (some answers, asked'))
    {answer : ChoiceRequest × TypeId} (hanswer : answer ∈ answers) :
    (h.selectionsOf answers).get? answer.1.signature = some (h.displayName answer.2) := by
  have hkeys : KeyedList.keys (h.selectionsOf answers) =
      (h.questions c missing).map ChoiceRequest.signature := by
    rw [← (answers_of_interview hasked).1, List.map_map, KeyedList.keys, selectionsOf, List.map_map]
    rfl
  refine KeyedList.get?_of_mem ?_ (List.mem_map_of_mem hanswer)
  rw [hkeys]
  exact nodup_dedupBy ChoiceRequest.signature _

/-- Unless unions with other names share its signature, an ambiguous parameter has a first
parameter with its names, and the question about that one is among the questions. -/
theorem exists_firstAlike (hp : p ∈ missing) (hr : h.requestFor c p = some r)
    (htells : h.SignatureTells c missing p) :
    ∃ first r₀, h.requestFor c first = some r₀ ∧ h.sameMembers first p = true ∧
      h.firstAlike c missing p = some r₀ ∧ r₀ ∈ h.questions c missing := by
  have hself : ((h.requestFor c p).isSome && h.sameMembers p p) = true := by
    rw [hr, sameMembers_iff.2 fun _ => Iff.rfl]
    rfl
  have hfound : (missing.find? fun q =>
      (h.requestFor c q).isSome && h.sameMembers q p).isSome = true :=
    List.find?_isSome.2 ⟨p, hp, hself⟩
  obtain ⟨first, hfirst⟩ := Option.isSome_iff_exists.1 hfound
  obtain ⟨hboth, before, after, hmissing, hbefore⟩ := List.find?_eq_some_iff_append.1 hfirst
  obtain ⟨hsome, hsame⟩ := Bool.and_eq_true_iff.1 hboth
  obtain ⟨r₀, hr₀⟩ := Option.isSome_iff_exists.1 hsome
  have hsig₀ : r₀.signature = r.signature := signature_eq_of_sameMembers hr hr₀ hsame
  refine ⟨first, r₀, hr₀, hsame, by rw [firstAlike, hfirst]; exact hr₀, ?_⟩
  -- no question before it has its signature
  have hrequests : h.requests c missing =
      before.filterMap (h.requestFor c) ++ r₀ :: after.filterMap (h.requestFor c) := by
    rw [requests, hmissing, List.filterMap_append, List.filterMap_cons, hr₀]
  rw [questions, hrequests]
  refine mem_dedupBy_append_cons fun b hb hsig => ?_
  obtain ⟨q, hq, hb⟩ := List.mem_filterMap.1 hb
  have hqmissing : q ∈ missing := by
    rw [hmissing]
    exact List.mem_append_left _ hq
  have hqsame := htells q hqmissing r b hr hb (hsig.trans hsig₀)
  have hqnot := hbefore q hq
  rw [hb, hqsame] at hqnot
  exact Bool.false_ne_true hqnot

end Asked

end Host

namespace Synthesis

variable {s : Synthesis}

/-- An alias around the sentinel; any other value as it is. -/
def orAlias (s : Synthesis) (symbol : Option SymbolId) (value : Value) : Value :=
  if value.isSentinel then (symbol.bind s.aliasWrap).getD value else value

/-- The text for a parameter of a type is the value of the type, or the parameter's alias around the
sentinel. -/
theorem text_parameterValue {p : Parameter} {type : TypeId} (htype : p.type = some type) :
    (s.parameterValue p).text = (s.orAlias p.aliasSymbol (s.value type 0 p.defaultText)).text := by
  rw [parameterValue, htype, orAlias]
  cases p.aliasSymbol with
  | none =>
      dsimp only
      split <;> rfl
  | some symbol =>
      dsimp only
      split
      · rfl
      · split
        · split <;> rfl
        · rfl

theorem parameterValue_of_no_alias {p : Parameter} {type : TypeId} (htype : p.type = some type)
    (halias : p.aliasSymbol = none) : s.parameterValue p = s.value type 0 p.defaultText := by
  rw [parameterValue, htype, halias]

/-- A union for which a leaf was chosen has the value of the leaf. -/
theorem value_of_selected {type t : TypeId} {members : List TypeId}
    (hshape : (s.host.shape type).members? = some members)
    (hsel : s.selected (Union.flatten s.host members) = some t) (depth : Nat)
    (existing : Option String) : s.value type depth existing = s.value t depth := by
  have hpick : s.pick members existing = some t := by
    rw [pick, hsel]
  have hleaf : (s.host.shape t).members? = none :=
    Option.isNone_iff_eq_none.1 (Option.isSome_eq_false_iff.1 (s.isUnion_of_pick hpick))
  rw [value, value]
  cases s.config.maxDepth + 1 - depth with
  | zero => rfl
  | succ levels =>
      rw [valueWithin, valueWithin, hshape, hleaf]
      dsimp only
      rw [hpick]

end Synthesis

namespace Host

variable {h : Host} {c : Config} {τ : Type} {chooser : Chooser τ} {missing : List Parameter}
  {answers : Answers} {asked asked' : τ} {p : Parameter} {r : ChoiceRequest}

/-- The value looks an answer up under the signature of the question, and takes the leaf of that
name. -/
theorem selected_memberTypes (hr : h.requestFor c p = some r) {sel : Selections} {name : String}
    (hname : sel.get? r.signature = some name) (call : CallSite) (o : Options) :
    (h.synthesis c call o sel).selected (h.memberTypes p) =
      (h.memberTypes p).find? fun t => h.displayName t = name := by
  obtain ⟨_, members, -, -, htypes, hsig, hchoice⟩ := exists_members_of_requestFor hr
  have hlength : 2 ≤ (h.memberTypes p).length := by
    rw [htypes]
    exact Union.two_le_length_of_choice hchoice
  have hkey : Union.signature h (h.memberTypes p) = r.signature := by
    rw [htypes, Union.signature_flatten, hsig]
  rw [Synthesis.selected, if_pos hlength]
  dsimp only
  rw [hkey, hname]

/-- With an answered interview, the first question alike has an answer; it counts under the
parameter's own signature, and it is a name among the parameter's own. -/
theorem exists_answer (hoffers : chooser.OffersOnly)
    (hasked : h.interview chooser (h.questions c missing) asked = (some answers, asked'))
    (hp : p ∈ missing) (hr : h.requestFor c p = some r)
    (htells : h.SignatureTells c missing p) :
    ∃ answer ∈ answers, ((h.firstAlike c missing p).bind fun r => answers.find? fun a => a.1 = r) =
        some answer ∧
      answer.1.signature = r.signature ∧ h.displayName answer.2 ∈ h.memberNames p := by
  obtain ⟨first, r₀, hr₀, hsame, halike, hquestion⟩ := exists_firstAlike hp hr htells
  obtain ⟨hrequests, hoptions⟩ := answers_of_interview hasked
  obtain ⟨answer, hanswer⟩ : ∃ answer, (answers.find? fun a => a.1 = r₀) = some answer := by
    rw [← hrequests] at hquestion
    obtain ⟨a, ha, hfst⟩ := List.mem_map.1 hquestion
    exact Option.isSome_iff_exists.1 (List.find?_isSome.2 ⟨a, ha, decide_eq_true hfst⟩)
  have hmem : answer ∈ answers := List.mem_of_find?_eq_some hanswer
  have hfst : answer.1 = r₀ := by simpa using List.find?_some hanswer
  have hoption : answer.2 ∈ r₀.options := hfst ▸ hoptions hoffers answer hmem
  refine ⟨answer, hmem, ?_, ?_, ?_⟩
  · rw [halike, Option.bind_some, hanswer]
  · rw [hfst, signature_eq_of_sameMembers hr hr₀ hsame]
  · exact (sameMembers_iff.1 hsame _).1
      (List.mem_map_of_mem (mem_memberTypes_of_mem_options hr₀ hoption))

/-- With an answered interview, an ambiguous parameter has a chosen leaf, and this leaf is selected
for its union. -/
theorem exists_chosenMember (hoffers : chooser.OffersOnly)
    (hasked : h.interview chooser (h.questions c missing) asked = (some answers, asked'))
    (hp : p ∈ missing) (hr : h.requestFor c p = some r)
    (htells : h.SignatureTells c missing p) (call : CallSite) (o : Options) :
    ∃ t ∈ h.memberTypes p, h.chosenMember c missing answers p = some t ∧
      (h.synthesis c call o (h.selectionsOf answers)).selected (h.memberTypes p) = some t := by
  obtain ⟨answer, hmem, halike, hsig, hname⟩ := exists_answer hoffers hasked hp hr htells
  obtain ⟨u, hu, huname⟩ := List.mem_map.1 hname
  obtain ⟨t, ht⟩ : ∃ t, ((h.memberTypes p).find? fun t =>
      h.displayName t = h.displayName answer.2) = some t :=
    Option.isSome_iff_exists.1 (List.find?_isSome.2 ⟨u, hu, decide_eq_true huname⟩)
  have hget : (h.selectionsOf answers).get? r.signature = some (h.displayName answer.2) := by
    rw [← hsig]
    exact get?_selectionsOf hasked hmem
  refine ⟨t, List.mem_of_find?_eq_some ht, ?_, ?_⟩
  · rw [chosenMember, halike]
    exact ht
  · rw [selected_memberTypes hr hget]
    exact ht

/-- Without variables in scope, the plan has the value for each missing parameter. -/
theorem plan_eq_map {call : CallSite} {o : Options} (sel : Selections)
    (hlocal : o.useLocalScope = false) :
    h.plan c call o sel = (h.missing call o).map fun p =>
      ((h.synthesis c call o sel).parameterValue p).asArgument p.name := by
  have hplanned : (h.synthesis c call o sel).plannedArgument call.scope = some ∘ fun p =>
      ((h.synthesis c call o sel).parameterValue p).asArgument p.name := by
    funext p
    rw [Synthesis.plannedArgument, hlocal]
    rfl
  rw [plan, planFor, hplanned, List.filterMap_eq_map]

/-- **The chosen member is the one that is inserted.** A run whose questions are all answered is a
population with the answers. Without variables in scope, an ambiguous parameter gets the value of
its own leaf with the name that was chosen for the first union with its names, inside the alias that
the parameter is annotated with where that value is the sentinel. It may not get it only where
unions with different names share a signature, and this takes a name with the separator. -/
theorem run_inserts_chosen (h : Host) (c : Config) {σ : Type} (e : Editor σ)
    (hoffers : chooser.OffersOnly) (call : CallSite) (o : Options) (asked : τ) (state : σ) :
    (h.run c e chooser call o asked state =
      match h.interview chooser (h.questions c (h.missing call o)) asked with
      | (some answers, asked') => (h.populate c e call o (h.selectionsOf answers) state, asked')
      | (none, asked') => ((.ok { stage := .aborted }, .aborted, state), asked')) ∧
    (∀ answers asked',
      h.interview chooser (h.questions c (h.missing call o)) asked = (some answers, asked') →
      o.useLocalScope = false →
      (h.plan c call o (h.selectionsOf answers) = (h.missing call o).map fun p =>
        ((h.synthesis c call o (h.selectionsOf answers)).parameterValue p).asArgument p.name) ∧
      ∀ p ∈ h.missing call o, (h.requestFor c p).isSome →
        h.SignatureTells c (h.missing call o) p →
        ∃ t, h.chosenMember c (h.missing call o) answers p = some t ∧
          t ∈ h.memberTypes p ∧
          (∀ u ∈ h.memberTypes p, h.displayName u = h.displayName t → u = t) ∧
          ((h.synthesis c call o (h.selectionsOf answers)).parameterValue p).text =
            ((h.synthesis c call o (h.selectionsOf answers)).orAlias p.aliasSymbol
              ((h.synthesis c call o (h.selectionsOf answers)).value t 0)).text ∧
          (p.aliasSymbol = none →
            (h.synthesis c call o (h.selectionsOf answers)).parameterValue p =
              (h.synthesis c call o (h.selectionsOf answers)).value t 0)) ∧
    ((∀ q ∈ h.missing call o, ∀ name ∈ h.memberNames q, '|' ∉ name.toList) →
      ∀ p ∈ h.missing call o, h.SignatureTells c (h.missing call o) p) := by
  refine ⟨run_eq_interview e call o asked state, ?_, ?_⟩
  · intro answers asked' hasked hlocal
    refine ⟨plan_eq_map _ hlocal, ?_⟩
    intro p hp hsome htells
    obtain ⟨r, hr⟩ := Option.isSome_iff_exists.1 hsome
    -- the answer is looked up by signature, and the signature tells the parameter's own names
    obtain ⟨t, ht, hchosen, hsel⟩ := exists_chosenMember hoffers hasked hp hr htells call o
    obtain ⟨type, members, htype, hshape, htypes, -, -⟩ := exists_members_of_requestFor hr
    rw [htypes] at hsel
    have hvalue := Synthesis.value_of_selected hshape hsel 0 p.defaultText
    refine ⟨t, hchosen, ht, fun u hu hname => eq_of_displayName_eq ht hu hname, ?_, ?_⟩
    · rw [Synthesis.text_parameterValue htype, hvalue]
    · intro halias
      rw [Synthesis.parameterValue_of_no_alias htype halias, hvalue]
  · intro hplain p hp
    exact signatureTells_of_plain hplain hp

/-! ## Two unions of the same members -/

end Host

namespace Chooser

/-- Takes the last option. -/
def last : Chooser Unit where
  choose state _ options _ := (options.getLast?, state)

theorem offersOnly_last : last.OffersOnly := by
  intro state title options label t state' hchoose
  exact List.mem_of_getLast? (Prod.mk.inj hchoose).1

end Chooser

namespace Host

/-- An editor that only notes its edits. -/
def noting : Editor (List Edit) where
  begin noted := (.ok (), noted)
  commit noted := (.ok (), noted)
  rollback noted := noted
  edit edit noted := (.ok (), noted ++ [edit])

/-- A host with two classes, and a function `adopt(x: Cat | Dog, y: Dog | Cat)`. -/
def pets : Host :=
  { blank with
    shape := fun t =>
      match t.index with
      | 0 => .plain ⟨0⟩
      | 1 => .plain ⟨1⟩
      | 2 => .union [⟨0⟩, ⟨1⟩]
      | _ => .union [⟨1⟩, ⟨0⟩]
    displayName := fun t => if t.index = 0 then "Cat" else "Dog"
    symbolOf := fun t => if t.index ≤ 1 then some ⟨t.index⟩ else none
    symbol := fun id =>
      let name := if id.index = 0 then "Cat" else "Dog"
      some { name, qualifiedName := "m." ++ name, module := "m", kind := .classType }
    provenance := fun _ => some .own
    callee := fun _ => some {
      name := "adopt"
      parameters := [{ name := "x", type := some ⟨2⟩ }, { name := "y", type := some ⟨3⟩ }] } }

/-- The parameter `y` of `adopt`. -/
def dogOrCat : Parameter := { name := "y", type := some ⟨3⟩ }

/-- The dog, chosen for `x`; the question about `y` is never asked. -/
def petAnswers : Answers := [(⟨"x", "Cat|Dog", [⟨0⟩, ⟨1⟩]⟩, ⟨1⟩)]

theorem interview_pets :
    pets.interview Chooser.last (pets.questions Config.default (pets.missing greetCall {})) () =
      (some petAnswers, ()) := by
  have hquestions : pets.questions Config.default (pets.missing greetCall {}) =
      [⟨"x", "Cat|Dog", [⟨0⟩, ⟨1⟩]⟩] := by cbv
  rw [hquestions]
  rfl

/-- The dog is inserted for both parameters, though each has a union of its own. -/
theorem pets_insert_chosen :
    Chooser.last.OffersOnly ∧
    pets.interview Chooser.last (pets.questions Config.default (pets.missing greetCall {})) () =
      (some petAnswers, ()) ∧
    pets.plan Config.default greetCall {} (pets.selectionsOf petAnswers) =
      [⟨"x", "Dog()", [⟨1⟩]⟩, ⟨"y", "Dog()", [⟨1⟩]⟩] ∧
    pets.run Config.default noting Chooser.last greetCall {} () [] =
      (pets.populate Config.default noting greetCall {} (pets.selectionsOf petAnswers) [], ()) ∧
    dogOrCat ∈ pets.missing greetCall {} ∧
    ∃ t, pets.chosenMember Config.default (pets.missing greetCall {}) petAnswers dogOrCat =
        some t ∧
      (pets.synthesis Config.default greetCall {} (pets.selectionsOf petAnswers)).parameterValue
        dogOrCat =
      (pets.synthesis Config.default greetCall {} (pets.selectionsOf petAnswers)).value t 0 := by
  have hmem : dogOrCat ∈ pets.missing greetCall {} := by decide +kernel
  have hsome : (pets.requestFor Config.default dogOrCat).isSome := by cbv
  have hplain : ∀ q ∈ pets.missing greetCall {},
      ∀ name ∈ pets.memberNames q, '|' ∉ name.toList := by decide +kernel
  obtain ⟨hrun, hvalues, htells⟩ := run_inserts_chosen pets Config.default noting
    Chooser.offersOnly_last greetCall {} () []
  rw [interview_pets] at hrun
  obtain ⟨-, hmembers⟩ := hvalues petAnswers () interview_pets rfl
  obtain ⟨t, hchosen, -, -, -, hvalue⟩ := hmembers dogOrCat hmem hsome (htells hplain dogOrCat hmem)
  exact ⟨Chooser.offersOnly_last, interview_pets, by cbv, hrun, hmem, t, hchosen, hvalue rfl⟩

/-! ## Where the chosen member is not inserted -/

/-- Every ambiguous parameter gets just the value of its chosen leaf. -/
def InsertsChosen (h : Host) (c : Config) {τ : Type} (chooser : Chooser τ) (call : CallSite)
    (o : Options) (asked : τ) : Prop :=
  ∀ answers asked',
    h.interview chooser (h.questions c (h.missing call o)) asked = (some answers, asked') →
    ∀ p ∈ h.missing call o, (h.requestFor c p).isSome →
      ∃ t, h.chosenMember c (h.missing call o) answers p = some t ∧
        ∃ a ∈ h.plan c call o (h.selectionsOf answers), a.name = p.name ∧
          a.value = ((h.synthesis c call o (h.selectionsOf answers)).value t 0).text

/-- The parameter `id`, of type `int | str` and annotated with the alias `UserId`. -/
def userId : Parameter := { name := "id", type := some ⟨2⟩, aliasSymbol := some ⟨0⟩ }

/-- A host with a record `User` that has this field. -/
def users : Host :=
  { blank with
    shape := fun t =>
      match t.index with
      | 0 => .builtin none "int"
      | 1 => .builtin none "str"
      | _ => .union [⟨0⟩, ⟨1⟩]
    displayName := fun t => if t.index = 0 then "int" else "str"
    symbol := fun _ => some {
      name := "UserId", qualifiedName := "m.UserId", module := "m", kind := .typeAlias }
    callee := fun _ => some { name := "User", parameters := [userId] } }

/-- The string, chosen for `id`. -/
def userAnswers : Answers := [(⟨"id", "int|str", [⟨0⟩, ⟨1⟩]⟩, ⟨1⟩)]

/-- The value of a string is the sentinel, and the alias is inserted instead. -/
theorem not_insertsChosen_users :
    ¬users.InsertsChosen Config.default Chooser.last greetCall {} () := by
  intro hinserts
  have hquestions : users.questions Config.default (users.missing greetCall {}) =
      [⟨"id", "int|str", [⟨0⟩, ⟨1⟩]⟩] := by cbv
  have hasked : users.interview Chooser.last
      (users.questions Config.default (users.missing greetCall {})) () =
      (some userAnswers, ()) := by
    rw [hquestions]
    rfl
  have hplan : users.plan Config.default greetCall {} (users.selectionsOf userAnswers) =
      [⟨"id", "UserId(...)", [⟨0⟩]⟩] := by cbv
  have hmember : users.chosenMember Config.default (users.missing greetCall {}) userAnswers userId =
      some ⟨1⟩ := by cbv
  have hvalue : ((users.synthesis Config.default greetCall {}
      (users.selectionsOf userAnswers)).value ⟨1⟩ 0).text = "..." := by cbv
  obtain ⟨t, hchosen, a, ha, -, htext⟩ :=
    hinserts userAnswers () hasked userId (by decide +kernel) (by cbv)
  obtain rfl : ⟨1⟩ = t := Option.some.inj (hmember.symm.trans hchosen)
  rw [hplan, List.mem_singleton] at ha
  rw [ha, hvalue] at htext
  exact absurd htext (by decide)

/-- A host with four classes and a function `f(x, y)` of two unions; that of `x` has the names `a|b`
and `c`, that of `y` the names `a` and `b|c`. -/
def joined : Host :=
  { blank with
    shape := fun t =>
      match t.index with
      | 4 => .union [⟨0⟩, ⟨1⟩]
      | 5 => .union [⟨2⟩, ⟨3⟩]
      | n => .plain ⟨n⟩
    displayName := fun t =>
      match t.index with
      | 0 => "a|b"
      | 1 => "c"
      | 2 => "a"
      | _ => "b|c"
    symbolOf := fun t => some ⟨t.index⟩
    symbol := fun _ => some {
      name := "C", qualifiedName := "m.C", module := "m", kind := .classType }
    provenance := fun _ => some .own
    callee := fun _ => some {
      name := "f"
      parameters := [{ name := "x", type := some ⟨4⟩ }, { name := "y", type := some ⟨5⟩ }] } }

/-- The second leaf, chosen for `x`. -/
def joinedAnswers : Answers := [(⟨"x", "a|b|c", [⟨0⟩, ⟨1⟩]⟩, ⟨1⟩)]

/-- The two unions share a signature, so the second is never asked about. -/
theorem not_insertsChosen_joined :
    ¬joined.InsertsChosen Config.default Chooser.last greetCall {} () := by
  intro hinserts
  have hquestions : joined.questions Config.default (joined.missing greetCall {}) =
      [⟨"x", "a|b|c", [⟨0⟩, ⟨1⟩]⟩] := by cbv
  have hasked : joined.interview Chooser.last
      (joined.questions Config.default (joined.missing greetCall {})) () =
      (some joinedAnswers, ()) := by
    rw [hquestions]
    rfl
  have hnone : joined.chosenMember Config.default (joined.missing greetCall {}) joinedAnswers
      { name := "y", type := some ⟨5⟩ } = none := by cbv
  obtain ⟨t, hchosen, -⟩ := hinserts joinedAnswers () hasked
    { name := "y", type := some ⟨5⟩ } (by decide +kernel) (by cbv)
  rw [hnone] at hchosen
  cases hchosen

theorem not_insertsChosen :
    Chooser.last.OffersOnly ∧
    ¬users.InsertsChosen Config.default Chooser.last greetCall {} () ∧
    ¬joined.InsertsChosen Config.default Chooser.last greetCall {} () :=
  ⟨Chooser.offersOnly_last, not_insertsChosen_users, not_insertsChosen_joined⟩

end Host

end CallFill
