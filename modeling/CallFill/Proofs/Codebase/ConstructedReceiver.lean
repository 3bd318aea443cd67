import CallFill.Proofs.Codebase.ForeignNames

/-!
# Methods of constructed instances

A callee `Name(...).method` is looked up as a method of the class that the name means, bound to an
instance of it. What stands between the first opening parenthesis and the last closing one is not
looked at: such a callee is recognised by what comes before and after
(`Project.constructedMethod?_eq_some_iff`), and no other callee whose receiver ends in a parenthesis
is answered (`Project.callee?_eq_some_iff`). So an instance that is constructed right there, with
one list of arguments, is always recognised. In a longer chain of calls the receiver is what another
call gives, and still the method of the class at the start of the chain is the answer
(`Project.not_answersInstances`).
-/

namespace CallFill.Project

open Source Text

/-! ## The text of a callee -/

/-- A callee `name(between).method`, with the blanks in it. -/
structure ConstructedCallee where
  name : List Char
  /-- Between the name and the first parenthesis. -/
  gap : List Char
  /-- Between the first opening parenthesis and the last closing one. -/
  between : List Char
  /-- Before the dot. -/
  before : List Char
  /-- Behind the dot. -/
  behind : List Char
  method : List Char
  deriving DecidableEq

namespace ConstructedCallee

/-- The callee as it is written. -/
def text (k : ConstructedCallee) : List Char :=
  k.name ++ (k.gap ++ '(' :: (k.between ++ ')' :: (k.before ++ '.' :: (k.behind ++ k.method))))

/-- The name is dotted, the method is one name, and only blanks stand around the dot and before the
parenthesis. -/
structure IsSpelled (k : ConstructedCallee) : Prop where
  name_start : ∃ c ∈ k.name.head?, isNameStart c = true
  name : ∀ c ∈ k.name, (Project.isNameChar c || c == '.') = true
  gap : ∀ c ∈ k.gap, isBlank c = true
  before : ∀ c ∈ k.before, isBlank c = true
  behind : ∀ c ∈ k.behind, isBlank c = true
  method_start : ∃ c ∈ k.method.head?, isNameStart c = true
  method : ∀ c ∈ k.method, Project.isNameChar c = true

end ConstructedCallee

/-! ## How a callee is cut -/

/-- Names have no blanks in them. -/
theorem isNameChar_of_isBlank {c : Char} (h : isBlank c = true) :
    Project.isNameChar c = false := by
  refine Bool.eq_false_iff.2 fun hname => ?_
  simp only [isBlank, Bool.or_eq_true, Bool.and_eq_true, decide_eq_true_eq, beq_iff_eq] at h
  rcases Bool.or_eq_true_iff.1 hname with halphanum | hunderscore
  · have hrange := isAlphanum_iff.1 halphanum
    omega
  · obtain rfl := beq_iff_eq.1 hunderscore
    have hcode : '_'.toNat = 95 := rfl
    omega

/-- What may stand in the dotted name is no blank. -/
theorem isDottedChar_of_isBlank {c : Char} (h : isBlank c = true) :
    (Project.isNameChar c || c == '.') = false := by
  rw [isNameChar_of_isBlank h, Bool.false_or, beq_eq_false_iff_ne]
  rintro rfl
  exact absurd h (by decide)

section Cut

variable {p : Char → Bool} {xs gap rest : List Char} {d : Char} (hxs : ∀ c ∈ xs, p c = true)

include hxs

/-- What is taken from the start of a text ends where other characters begin. -/
theorem takeWhile_append_break (hgap : ∀ c ∈ gap, p c = false) (hd : p d = false) :
    (xs ++ (gap ++ d :: rest)).takeWhile p = xs := by
  rw [List.takeWhile_append_of_pos hxs]
  have hstop : (gap ++ d :: rest).takeWhile p = [] := by
    cases gap with
    | nil => exact List.takeWhile_cons_of_neg (by simp [hd])
    | cons g gap => exact List.takeWhile_cons_of_neg (by simp [hgap g List.mem_cons_self])
  rw [hstop, List.append_nil]

theorem dropWhile_append_cons (hd : p d = false) : (xs ++ d :: rest).dropWhile p = d :: rest := by
  rw [List.dropWhile_append_of_pos hxs, List.dropWhile_cons_of_neg (by simp [hd])]

/-- A text is cut in one way only at the first character that does not belong. -/
theorem append_cons_inj {xs' rest' : List Char} (hxs' : ∀ c ∈ xs', p c = true) (hd : p d = false)
    (h : xs ++ d :: rest = xs' ++ d :: rest') : xs = xs' ∧ rest = rest' := by
  have htaken := congrArg (List.takeWhile p) h
  rw [List.takeWhile_append_of_pos hxs, List.takeWhile_append_of_pos hxs',
    List.takeWhile_cons_of_neg (by simp [hd]), List.takeWhile_cons_of_neg (by simp [hd]),
    List.append_nil, List.append_nil] at htaken
  subst htaken
  exact ⟨rfl, (List.cons.inj (List.append_cancel_left h)).2⟩

end Cut

namespace ConstructedCallee

variable {k k' : ConstructedCallee}

/-- The callee behind the first parenthesis, from its end. -/
theorem reverse_rest (k : ConstructedCallee) :
    (k.between ++ ')' :: (k.before ++ '.' :: (k.behind ++ k.method))).reverse =
      k.method.reverse ++ (k.behind.reverse ++ '.' :: (k.before.reverse ++ ')' ::
        k.between.reverse)) := by
  simp

namespace IsSpelled

variable (h : k.IsSpelled)

include h

/-- A call of a method on a new instance begins with the name of the class. -/
theorem takeWhile_text :
    k.text.takeWhile (fun c => Project.isNameChar c || c == '.') = k.name :=
  takeWhile_append_break h.name (fun c hc => isDottedChar_of_isBlank (h.gap c hc)) (by decide)

/-- Behind the name, parentheses open. -/
theorem trimStart_drop : trimStart (k.text.drop k.name.length) =
    '(' :: (k.between ++ ')' :: (k.before ++ '.' :: (k.behind ++ k.method))) := by
  rw [text, List.drop_left]
  exact dropWhile_append_cons h.gap (by decide)

theorem takeWhile_reverse :
    (k.between ++ ')' :: (k.before ++ '.' :: (k.behind ++ k.method))).reverse.takeWhile
      Project.isNameChar = k.method.reverse := by
  rw [k.reverse_rest]
  refine takeWhile_append_break (fun c hc => h.method c (List.mem_reverse.1 hc)) ?_ (by decide)
  exact fun c hc => isNameChar_of_isBlank (h.behind c (List.mem_reverse.1 hc))

/-- Before the name of the method, behind a dot, parentheses close. -/
theorem trimStart_reverse :
    trimStart ((k.between ++ ')' :: (k.before ++ '.' :: (k.behind ++ k.method))).reverse.drop
      k.method.length) = '.' :: (k.before.reverse ++ ')' :: k.between.reverse) := by
  rw [k.reverse_rest, ← List.length_reverse, List.drop_left]
  exact dropWhile_append_cons (fun c hc => h.behind c (List.mem_reverse.1 hc)) (by decide)

/-- A callee that is spelled like this is recognised, whatever stands between the parentheses. -/
theorem constructedMethod?_text :
    constructedMethod? k.text = some (String.ofList k.name, String.ofList k.method) := by
  have hafter : trimStart (k.before.reverse ++ ')' :: k.between.reverse) =
      ')' :: k.between.reverse :=
    dropWhile_append_cons (fun c hc => h.before c (List.mem_reverse.1 hc)) (by decide)
  obtain ⟨first, hfirst, hstart⟩ := h.name_start
  obtain ⟨initial, hinitial, hmethod⟩ := h.method_start
  rw [Option.mem_def] at hfirst hinitial
  simp only [constructedMethod?, h.takeWhile_text, hfirst, h.trimStart_drop, h.takeWhile_reverse,
    List.reverse_reverse, hinitial, h.trimStart_reverse, hafter, hstart, hmethod, Bool.and_self,
    if_true]

end IsSpelled

/-- A callee is spelled like this in one way only. -/
theorem IsSpelled.eq_of_text_eq (h : k.IsSpelled) (h' : k'.IsSpelled) (heq : k.text = k'.text) :
    k = k' := by
  have hname : k.name = k'.name := by rw [← h.takeWhile_text, ← h'.takeWhile_text, heq]
  rw [text, text, hname] at heq
  obtain ⟨hgap, hrest⟩ := append_cons_inj h.gap h'.gap (by decide) (List.append_cancel_left heq)
  -- the method and what stands before it are cut from the end
  have hmethod : k.method = k'.method := by
    rw [← List.reverse_inj, ← h.takeWhile_reverse, ← h'.takeWhile_reverse, hrest]
  have hreverse := congrArg List.reverse hrest
  rw [k.reverse_rest, k'.reverse_rest, hmethod] at hreverse
  have hblank : ∀ {cs : List Char}, (∀ c ∈ cs, isBlank c = true) →
      ∀ c ∈ cs.reverse, isBlank c = true := fun hcs c hc => hcs c (List.mem_reverse.1 hc)
  obtain ⟨hbehind, hlast⟩ := append_cons_inj (hblank h.behind) (hblank h'.behind) (by decide)
    (List.append_cancel_left hreverse)
  obtain ⟨hbefore, hbetween⟩ :=
    append_cons_inj (hblank h.before) (hblank h'.before) (by decide) hlast
  rw [List.reverse_inj] at hbehind hbefore hbetween
  obtain ⟨name, gap, between, before, behind, method⟩ := k
  obtain ⟨name', gap', between', before', behind', method'⟩ := k'
  dsimp only at hname hgap hmethod hbehind hbefore hbetween
  rw [hname, hgap, hmethod, hbehind, hbefore, hbetween]

end ConstructedCallee

/-- What is trimmed off the start is blanks. -/
theorem exists_of_trimStart {cs rest : List Char} {d : Char} (h : trimStart cs = d :: rest) :
    ∃ gap, (∀ c ∈ gap, isBlank c = true) ∧ cs = gap ++ d :: rest := by
  refine ⟨cs.takeWhile isBlank, List.all_eq_true.1 List.all_takeWhile, ?_⟩
  rw [← h]
  exact List.takeWhile_append_dropWhile.symm

theorem takeWhile_append_drop (p : Char → Bool) (cs : List Char) :
    cs.takeWhile p ++ cs.drop (cs.takeWhile p).length = cs :=
  List.prefix_iff_eq_append.1 (List.takeWhile_prefix p)

/-- A text whose end is read as a method name behind a dot and a closing parenthesis. -/
theorem exists_of_ending {rest last tail method : List Char}
    (hmethod : (rest.reverse.takeWhile Project.isNameChar).reverse = method)
    (hdot : trimStart (rest.reverse.drop method.length) = '.' :: last)
    (hclose : trimStart last = ')' :: tail) :
    ∃ before behind, (∀ c ∈ before, isBlank c = true) ∧ (∀ c ∈ behind, isBlank c = true) ∧
      (∀ c ∈ method, Project.isNameChar c = true) ∧
      rest = tail.reverse ++ ')' :: (before ++ '.' :: (behind ++ method)) := by
  have hreverse : rest.reverse.takeWhile Project.isNameChar = method.reverse := by
    rw [← hmethod, List.reverse_reverse]
  obtain ⟨behind, hbehind, hcut⟩ := exists_of_trimStart hdot
  obtain ⟨before, hbefore, rfl⟩ := exists_of_trimStart hclose
  refine ⟨before.reverse, behind.reverse, fun c hc => hbefore c (List.mem_reverse.1 hc),
    fun c hc => hbehind c (List.mem_reverse.1 hc), ?_, ?_⟩
  · intro c hc
    have hall := List.all_eq_true.1
      (List.all_takeWhile (p := Project.isNameChar) (l := rest.reverse))
    exact hall c (hreverse ▸ List.mem_reverse.2 hc)
  · have hsplit := takeWhile_append_drop Project.isNameChar rest.reverse
    rw [hreverse, List.length_reverse, hcut] at hsplit
    rw [← List.reverse_inj, ← hsplit]
    simp

/-- A callee that is recognised is spelled like this. -/
theorem exists_of_constructedMethod? {text : List Char} {name method : String}
    (h : constructedMethod? text = some (name, method)) :
    ∃ k : ConstructedCallee, k.IsSpelled ∧ k.text = text ∧ String.ofList k.name = name ∧
      String.ofList k.method = method := by
  rw [constructedMethod?] at h
  dsimp only at h
  split at h
  · next first rest hfirst hopen =>
      split at h
      · next initial last hinitial hdot =>
          split at h
          · next tail hclose =>
              split at h
              · next hstarts =>
                  obtain ⟨hstart, hletter⟩ := Bool.and_eq_true_iff.1 hstarts
                  obtain ⟨rfl, rfl⟩ := Prod.mk.inj (Option.some.inj h)
                  obtain ⟨gap, hgap, hcut⟩ := exists_of_trimStart hopen
                  obtain ⟨before, behind, hbefore, hbehind, hmethod, hrest⟩ :=
                    exists_of_ending rfl hdot hclose
                  refine ⟨⟨_, gap, tail.reverse, before, behind, _⟩,
                    ⟨⟨first, hfirst, hstart⟩, List.all_eq_true.1 List.all_takeWhile, hgap, hbefore,
                      hbehind, ⟨initial, hinitial, hletter⟩, hmethod⟩, ?_, rfl, rfl⟩
                  rw [hrest] at hcut
                  have hsplit := takeWhile_append_drop
                    (fun c => Project.isNameChar c || c == '.') text
                  rwa [hcut] at hsplit
              · exact nomatch h
          · exact nomatch h
      · exact nomatch h
  · exact nomatch h

/-- **What is recognised.** The callees of the form `name(...).method`, with anything between the
first opening parenthesis and the last closing one. -/
theorem constructedMethod?_eq_some_iff {text : List Char} {name method : String} :
    constructedMethod? text = some (name, method) ↔
      ∃ k : ConstructedCallee, k.IsSpelled ∧ k.text = text ∧ String.ofList k.name = name ∧
        String.ofList k.method = method := by
  refine ⟨exists_of_constructedMethod?, ?_⟩
  rintro ⟨k, hk, rfl, rfl, rfl⟩
  exact hk.constructedMethod?_text

/-! ## The callees that are answered -/

/-- The text ends in a closing parenthesis. -/
def EndsClosing (text : String) : Prop :=
  text.toList.getLast? = some ')'

instance (text : String) : Decidable (EndsClosing text) :=
  inferInstanceAs (Decidable (_ = _))

/-- A text that ends with a closing parenthesis has one in it. -/
theorem EndsClosing.mem {text : String} (h : EndsClosing text) : ')' ∈ text.toList :=
  List.mem_of_getLast? h

/-- The callee of a call on the receiver. -/
def IsMethodOf (call : CallSite) (receiver method : String) : Prop :=
  trimmed call.callee = Dotted.below receiver method ∧ '.' ∉ method.toList

/-- A name without a dot is what stands behind the last dot. -/
theorem splitLast?_below {receiver method : String} (hmethod : '.' ∉ method.toList) :
    Dotted.splitLast? (Dotted.below receiver method) = some (receiver, method) := by
  have hkept : ∀ c ∈ method.toList.reverse, (c != '.') = true := by
    intro c hc
    refine bne_iff_ne.2 ?_
    rintro rfl
    exact hmethod (List.mem_reverse.1 hc)
  rw [Dotted.splitLast?, Dotted.last, Dotted.reverse_below, List.dropWhile_append_of_pos hkept,
    List.dropWhile_cons_of_neg (by decide), List.takeWhile_append_of_pos hkept,
    List.takeWhile_cons_of_neg (by decide), List.append_nil, List.reverse_reverse]
  simp

section Callee

variable {p : Project} {call : CallSite} {receiver method : String}

/-- Whatever stands between its parentheses, a callee `name(...).method` is answered with the method
of the class that the name means, bound to an object. -/
theorem callee?_of_text {k : ConstructedCallee} (h : k.IsSpelled)
    (htext : (trimmed call.callee).toList = k.text) :
    p.callee? call = (p.resolveClass? call.file (String.ofList k.name)).bind fun id =>
      p.methodSignature? id (String.ofList k.method) .object := by
  rw [callee?]
  dsimp only
  rw [htext, h.constructedMethod?_text]

section Plain

variable (hplain : p.IsPlain ')') (hclosing : EndsClosing receiver)

include hplain hclosing

/-- What ends with a closing parenthesis names no class. -/
theorem resolveClass?_of_closing (file : FileId) : p.resolveClass? file receiver = none := by
  rw [resolveClass?]
  split
  · next id hid =>
      exact absurd hid (Codebase.resolve_ne_class isForeign_closing hplain hclosing.mem id)
  · rfl

/-- No class and no function has a name that ends behind a parenthesis. -/
theorem namedCallee?_of_closing (hmethod : '.' ∉ method.toList) :
    p.namedCallee? call (Dotted.below receiver method) = none := by
  have houtside : ∀ e, p.resolveFrom call.scope (Dotted.below receiver method) = some e →
      e.IsOutside :=
    fun _ => Codebase.isOutside_of_resolveFrom isForeign_closing hplain hclosing.mem
  rw [namedCallee?]
  split
  · next id hid =>
      obtain ⟨name, hname⟩ := houtside _ hid
      exact nomatch hname
  · next id hid =>
      obtain ⟨name, hname⟩ := houtside _ hid
      exact nomatch hname
  · rfl
  · rw [splitLast?_below hmethod, Option.bind_some]
    show (p.resolveClass? call.file receiver).bind _ = none
    rw [resolveClass?_of_closing hplain hclosing]
    rfl

/-- A callee on a receiver that ends in a parenthesis has no other answer. -/
theorem callee?_of_not_recognised (hcallee : IsMethodOf call receiver method)
    (hnone : constructedMethod? (trimmed call.callee).toList = none) : p.callee? call = none := by
  obtain ⟨htext, hmethod⟩ := hcallee
  have hreceiver : receiverOf? receiver = none := by
    rw [receiverOf?, if_neg, if_neg]
    · rintro rfl
      exact absurd hclosing (by decide)
    · rintro rfl
      exact absurd hclosing (by decide)
  rw [callee?]
  dsimp only
  rw [hnone]
  dsimp only
  rw [htext, splitLast?_below hmethod, Option.bind_some, hreceiver]
  exact namedCallee?_of_closing hplain hclosing hmethod

/-- **What is answered.** A callee on a receiver that ends in a parenthesis is answered exactly if
it is of the form `name(...).method` and the class that the name means has the method. -/
theorem callee?_eq_some_iff (hcallee : IsMethodOf call receiver method) {s : Signature} :
    p.callee? call = some s ↔
      ∃ k : ConstructedCallee, k.IsSpelled ∧ k.text = (Dotted.below receiver method).toList ∧
        ∃ id, p.resolveClass? call.file (String.ofList k.name) = some id ∧
          p.methodSignature? id (String.ofList k.method) .object = some s := by
  constructor
  · intro hsome
    cases hfound : constructedMethod? (trimmed call.callee).toList with
    | none =>
        rw [callee?_of_not_recognised hplain hclosing hcallee hfound] at hsome
        exact nomatch hsome
    | some found =>
        obtain ⟨name, recognised⟩ := found
        obtain ⟨k, hk, htext, -, -⟩ := exists_of_constructedMethod? hfound
        rw [callee?_of_text hk htext.symm] at hsome
        obtain ⟨id, hid, hmethod⟩ := Option.bind_eq_some_iff.1 hsome
        exact ⟨k, hk, htext.trans (congrArg String.toList hcallee.1), id, hid, hmethod⟩
  · rintro ⟨k, hk, htext, id, hid, hmethod⟩
    rw [callee?_of_text hk ((congrArg String.toList hcallee.1).trans htext.symm), hid]
    exact hmethod

end Plain

end Callee

/-! ## One list of arguments -/

/-- The mark that closes the bracket that a token opens. -/
def closing? (t : Token) : Option String :=
  if t.isMark "(" then some ")"
  else if t.isMark "[" then some "]"
  else if t.isMark "\x7b" then some "\x7d"
  else none

/-- Whether the tokens close the brackets that are open, given by the marks that close them: each
with its own mark, and the outermost with the last token. -/
def closes : List String → List Token → Bool
  | [], ts => ts.isEmpty
  | _ :: _, [] => false
  | mark :: outer, t :: ts =>
    match closing? t with
    | some inner => closes (inner :: mark :: outer) ts
    | none =>
      if t.isMark ")" || t.isMark "]" || t.isMark "\x7d" then t.isMark mark && closes outer ts
      else closes (mark :: outer) ts

/-- Whether the text is one list of arguments: a parenthesis that only the last token closes. -/
def isArgumentList (text : List Char) : Bool :=
  match (lex text).1.filter Token.isSolid with
  | t :: ts => t.isMark "(" && closes [")"] ts
  | [] => false

example : isArgumentList "(f(x), \")\", [y])".toList = true := by decide +kernel

namespace ConstructedCallee

/-- The receiver is an instance that is constructed right there, with one list of arguments. -/
def IsInstance (k : ConstructedCallee) : Prop :=
  isArgumentList ('(' :: (k.between ++ [')'])) = true

instance (k : ConstructedCallee) : Decidable k.IsInstance :=
  inferInstanceAs (Decidable (_ = true))

end ConstructedCallee

/-- The signature is that of a method of a class, reached through an instance that is constructed
right there. -/
def AnswersInstance (p : Project) (file : FileId) (receiver method : String) (s : Signature) :
    Prop :=
  ∃ k : ConstructedCallee, k.IsSpelled ∧ k.IsInstance ∧
    k.text = (Dotted.below receiver method).toList ∧
    ∃ id, p.resolveClass? file (String.ofList k.name) = some id ∧
      p.methodSignature? id (String.ofList k.method) .object = some s

/-- A callee on a receiver that ends in a parenthesis is answered rightly exactly if one list of
arguments stands between the first opening parenthesis and the last closing one. -/
theorem answersInstance_iff {p : Project} {call : CallSite} {receiver method : String}
    {s : Signature} {k : ConstructedCallee} (hplain : p.IsPlain ')')
    (hclosing : EndsClosing receiver) (hcallee : IsMethodOf call receiver method)
    (hsome : p.callee? call = some s) (hk : k.IsSpelled)
    (htext : k.text = (Dotted.below receiver method).toList) :
    AnswersInstance p call.file receiver method s ↔ k.IsInstance := by
  constructor
  · rintro ⟨k', hk', hinstance, htext', -⟩
    rwa [← hk'.eq_of_text_eq hk (htext'.trans htext.symm)]
  · intro hinstance
    obtain ⟨k', hk', htext', hmethod⟩ := (callee?_eq_some_iff hplain hclosing hcallee).1 hsome
    obtain rfl := hk'.eq_of_text_eq hk (htext'.trans htext.symm)
    exact ⟨k', hk', hinstance, htext', hmethod⟩

/-- Callees on a receiver that ends in a parenthesis are answered only if the receiver is an
instance that is constructed right there, and then with the method of its class. -/
def AnswersInstances (config : Config) (sources : List (String × String)) : Prop :=
  ∀ (call : CallSite) (receiver method : String) (s : Signature),
    IsMethodOf call receiver method → EndsClosing receiver →
    (ofSources config sources).callee? call = some s →
    AnswersInstance (ofSources config sources) call.file receiver method s

/-- A project answers rightly exactly if it answers no callee with more than one list of arguments
between the parentheses. -/
theorem answersInstances_iff {config : Config} {sources : List (String × String)}
    (hmodules : ∀ s ∈ sources, ')' ∉ (ModuleName.ofPath s.1).1.toList) :
    AnswersInstances config sources ↔
      ∀ (call : CallSite) (receiver method : String) (k : ConstructedCallee),
        IsMethodOf call receiver method → EndsClosing receiver →
        k.IsSpelled → k.text = (Dotted.below receiver method).toList →
        ((ofSources config sources).callee? call).isSome → k.IsInstance := by
  have hplain := @isPlain_ofSources _ isForeign_closing config sources hmodules
  constructor
  · intro hright call receiver method k hcallee hclosing hk htext hanswered
    obtain ⟨s, hs⟩ := Option.isSome_iff_exists.1 hanswered
    exact (answersInstance_iff hplain hclosing hcallee hs hk htext).1
      (hright call receiver method s hcallee hclosing hs)
  · intro hinstances call receiver method s hcallee hclosing hs
    obtain ⟨k, hk, htext, -⟩ := (callee?_eq_some_iff hplain hclosing hcallee).1 hs
    refine (answersInstance_iff hplain hclosing hcallee hs hk htext).2 ?_
    exact hinstances call receiver method k hcallee hclosing hk htext (by rw [hs]; rfl)

/-- A chain of calls that starts with an instance of a class. -/
def chain : String :=
  "class Query:\n    def where(self): return []\n\n    def run(self, limit): pass\n\n\n" ++
  "Query().where().run()\n"

/-- The last call of the chain is answered with the method of the class, though its receiver is what
another call gives. -/
theorem not_answersInstances :
    (parse chain.toList).hasError = false ∧
    (ofSources .default [("main.py", chain)]).calls.map (fun c => c.site.callee) =
      ["Query().where().run", "Query().where", "Query"] ∧
    ((ofSources .default [("main.py", chain)]).calls.head?.bind fun c =>
      ((ofSources .default [("main.py", chain)]).callee? c.site).map fun s =>
        s.parameters.map Parameter.name) = some ["limit"] ∧
    ¬ AnswersInstances .default [("main.py", chain)] := by
  have hcallees : (ofSources .default [("main.py", chain)]).calls.map (fun c => c.site.callee) =
      ["Query().where().run", "Query().where", "Query"] := by decide +kernel
  have hanswer : ((ofSources .default [("main.py", chain)]).calls.head?.bind fun c =>
      ((ofSources .default [("main.py", chain)]).callee? c.site).map fun s =>
        s.parameters.map Parameter.name) = some ["limit"] := by decide +kernel
  refine ⟨by decide +kernel, hcallees, hanswer, ?_⟩
  intro hright
  obtain ⟨c, hc, hsignature⟩ := Option.bind_eq_some_iff.1 hanswer
  obtain ⟨s, hs, -⟩ := Option.map_eq_some_iff.1 hsignature
  have hcallee : c.site.callee = "Query().where().run" := by
    have hhead := congrArg List.head? hcallees
    rw [List.head?_map, hc] at hhead
    exact Option.some.inj hhead
  have hmethod : IsMethodOf c.site "Query().where()" "run" := by
    refine ⟨?_, by decide⟩
    rw [hcallee]
    decide
  obtain ⟨k, hk, hinstance, htext, -⟩ := hright c.site "Query().where()" "run" s hmethod rfl hs
  -- between the parentheses there is more than one list of arguments
  have hspelled : (⟨"Query".toList, [], ").where(".toList, [], [], "run".toList⟩ :
      ConstructedCallee).IsSpelled :=
    ⟨⟨'Q', rfl, rfl⟩, List.all_eq_true.1 rfl, List.all_eq_true.1 rfl, List.all_eq_true.1 rfl,
      List.all_eq_true.1 rfl, ⟨'r', rfl, rfl⟩, List.all_eq_true.1 rfl⟩
  obtain rfl := hk.eq_of_text_eq hspelled htext
  exact absurd hinstance (by decide +kernel)

end CallFill.Project
