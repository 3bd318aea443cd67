import CallFill.Proofs.Codebase.ScopeTree

/-!
# The innermost call

The calls of a file nest through their callees and through their arguments. At an offset the
shortest call is taken that holds or touches it (`Codebase.callAt?`). That this is the innermost one
is a matter of how the calls lie: of two of them one lies within the other or they are apart, as the
trees do that they are read off, and two that are apart do not touch
(`Project.innermost_callAt?`).

What is asked of the trees is said in `SyntaxTree.Nests`; how they come about plays no part.
-/

namespace CallFill

open Source SyntaxTree Text

namespace Source.SyntaxTree

/-- A call starts with its callee, and behind it come the arguments, which stand between two
parentheses and end the call. -/
structure CalleeThenArguments (t callee given : SyntaxTree) : Prop where
  start_eq : t.start = callee.start
  callee_le : callee.stop ≤ given.start
  stop_eq : given.stop = t.stop
  long : given.start + 2 ≤ given.stop
  between : InOrder (given.start + 1) (given.stop - 1) (given.start + 1) given.children

/-- A tree lies in a text: its parts nest, the parentheses of calls among them, every call is a
callee and its arguments, and no call ends where one starts unless one of them holds the other. -/
structure Nests (text : List Char) (tree : SyntaxTree) : Prop where
  placed : AllParts (Placed (· ≤ byteLength text)) tree
  call : ∀ t, IsPart t tree → t.kind = .call → ∀ callee ∈ t.child? .function,
    ∀ given ∈ t.child? .arguments, t.CalleeThenArguments callee given
  apart : ∀ t u, IsPart t tree → IsPart u tree → t.kind = .call → u.kind = .call →
    (u.start ≤ t.start ∧ t.stop ≤ u.stop) ∨ (t.start ≤ u.start ∧ u.stop ≤ t.stop) ∨
      t.stop ≠ u.start

/-- The trees of the grammar lie in their text, so that only the calls are left to look at. -/
theorem nests_parse {text : List Char}
    (hcall : ∀ x ∈ standing [parse text] (parse text), x.2.kind = .call →
      ∀ callee ∈ x.2.child? .function, ∀ given ∈ x.2.child? .arguments,
        x.2.start = callee.start ∧ callee.stop ≤ given.start ∧ given.stop = x.2.stop)
    (hapart : ∀ x ∈ standing [parse text] (parse text), ∀ y ∈ standing [parse text] (parse text),
      x.2.kind = .call → y.2.kind = .call → (y.2.start ≤ x.2.start ∧ x.2.stop ≤ y.2.stop) ∨
        (x.2.start ≤ y.2.start ∧ y.2.stop ≤ x.2.stop) ∨ x.2.stop ≠ y.2.start) :
    (parse text).Nests text := by
  have hsound := sound_parse text
  have hlisted : ∀ t, IsPart t (parse text) →
      ∃ x ∈ standing [parse text] (parse text), x.2 = t :=
    fun t ht => ht.exists_mem_standing (self_mem_standing _ _)
  refine ⟨hsound.imp fun t ht => ?_, ?_, ?_⟩
  · exact ⟨ht.placed.start_edge.le, ht.placed.stop_edge.le, ht.placed.start_le_stop,
      ht.placed.ordered⟩
  · intro t ht hkind callee hcallee given hgiven
    obtain ⟨x, hx, rfl⟩ := hlisted t ht
    obtain ⟨hstart, hbefore, hstop⟩ := hcall x hx hkind callee hcallee given hgiven
    obtain ⟨hmem, hrole⟩ := mem_of_child? hgiven
    have hparen := (hsound given (.trans (.inside hmem (.self _)) ht)).wellFormed.arguments hrole
    exact ⟨hstart, hbefore, hstop, hparen.long, hparen.ordered⟩
  · intro t u ht hu hkind hkind'
    obtain ⟨x, hx, rfl⟩ := hlisted t ht
    obtain ⟨y, hy, rfl⟩ := hlisted u hu
    exact hapart x hx y hy hkind hkind'

end Source.SyntaxTree

/-- A call with these offsets stands around its parentheses, and its arguments between them. -/
structure Bracketed (text : List Char) (start stop openParen closeParen : Nat)
    (lastArgumentEnd : Option Nat) : Prop where
  start_le : start ≤ openParen
  open_lt_close : openParen < closeParen
  stop_eq : stop = closeParen + 1
  opening : Holds text openParen (openParen + 1) ['(']
  closing : Holds text closeParen (closeParen + 1) [')']
  last : ∀ n ∈ lastArgumentEnd, openParen < n ∧ n ≤ closeParen

theorem Bracketed.start_lt_stop {text : List Char} {start stop openParen closeParen : Nat}
    {lastArgumentEnd : Option Nat}
    (h : Bracketed text start stop openParen closeParen lastArgumentEnd) : start < stop := by
  obtain ⟨hle, hlt, rfl, -, -, -⟩ := h
  omega

namespace CallRecord

/-- The call is bracketed in a text. -/
abbrev BracketedIn (text : List Char) (c : CallRecord) : Prop :=
  Bracketed text c.start c.stop c.openParen c.closeParen c.lastArgumentEnd

/-- One call lies within another. -/
def Within (c d : CallRecord) : Prop :=
  d.start ≤ c.start ∧ c.stop ≤ d.stop

/-- One of two calls ends before the other starts, and they do not touch. -/
def Apart (c d : CallRecord) : Prop :=
  c.stop < d.start ∨ d.stop < c.start

/-- The call holds an offset, or ends there. -/
def Touches (c : CallRecord) (offset : Nat) : Prop :=
  c.start ≤ offset ∧ offset ≤ c.stop

end CallRecord

/-! ## The trees of calls -/

section Trees

variable {m : SourceModule} {tree t u : SyntaxTree} {d : CallDef}

/-- The call of a module is read off a tree in it. -/
def CallDef.IsOf (m : SourceModule) (tree t : SyntaxTree) (d : CallDef) : Prop :=
  IsPart t tree ∧ t.kind = .call ∧
    ∃ here callee given, Outline.ReadOff m.text.toList here t callee given d

theorem SourceModule.ReadFrom.exists_isOf (h : m.ReadFrom tree) (hd : d ∈ m.outline.calls) :
    ∃ t, d.IsOf m tree t := by
  obtain ⟨root, hroot, hchildren, houtline⟩ := h.exists_root
  rw [houtline] at hd
  obtain ⟨s, hs, t, here, ht, hkind, hcall⟩ := Outline.exists_part_of_mem_ofTree hroot hd
  obtain ⟨callee, given, hread⟩ := Outline.readOff_of_callOf? hcall
  rw [hchildren] at hs
  exact ⟨t, .inside hs ht, hkind, here, callee, given, hread⟩

variable (hnests : tree.Nests m.text.toList)

include hnests

/-- Where trees nest, a call that is read off one is bracketed. -/
theorem CallDef.IsOf.bracketed (h : d.IsOf m tree t) :
    Bracketed m.text.toList d.start d.stop d.openParen d.closeParen d.lastArgumentEnd := by
  obtain ⟨ht, hkind, here, callee, given, hread⟩ := h
  obtain ⟨hstart, hcallee, hstop, hlong, hbetween⟩ :=
    hnests.call t ht hkind callee hread.function given hread.arguments
  obtain ⟨pos, -, hordered⟩ := (hnests.placed t ht).ordered
  have hle := (hordered.bounds (mem_of_child? hread.function).1).2.2.1
  have hopen := hread.openParen_eq
  have hclose := hread.closeParen_eq
  have hfirst := hread.start_eq
  have hend := hread.stop_eq
  refine ⟨by omega, by omega, by omega, ?_, ?_, ?_⟩
  · rw [hopen]
    exact slice?_eq_some_iff.1 hread.opening
  · rw [hclose]
    exact slice?_eq_some_iff.1 hread.closing
  · intro n hn
    rcases hread.takes.last n hn with rfl | ⟨a, ha, rfl⟩
    · omega
    · obtain ⟨hafter, -, hwide, hbefore⟩ := hbetween.bounds ha
      omega

/-- Where trees nest, two calls of a module lie one within the other, or they are apart and do not
touch. -/
theorem CallDef.IsOf.within_or_apart {e : CallDef} (h : d.IsOf m tree t) (h' : e.IsOf m tree u) :
    (e.start ≤ d.start ∧ d.stop ≤ e.stop) ∨ (d.start ≤ e.start ∧ e.stop ≤ d.stop) ∨
      d.stop < e.start ∨ e.stop < d.start := by
  have hd := h.bracketed hnests
  have he := h'.bracketed hnests
  obtain ⟨ht, hkind, _, _, _, hread⟩ := h
  obtain ⟨hu, hkind', _, _, _, hread'⟩ := h'
  have hstart := hread.start_eq
  have hstop := hread.stop_eq
  have hstart' := hread'.start_eq
  have hstop' := hread'.stop_eq
  have hcovers : t.start < t.stop := by
    rw [← hstart, ← hstop]
    exact hd.start_lt_stop
  have hcovers' : u.start < u.stop := by
    rw [← hstart', ← hstop']
    exact he.start_lt_stop
  have hpart : ∀ {v}, IsPart v tree →
      AllParts (SyntaxTree.Placed (· ≤ byteLength m.text.toList)) v :=
    fun hv w hw => hnests.placed w (hw.trans hv)
  -- the calls lie as their trees do, and trees of calls that are apart do not touch
  rcases hnests.placed.nested_or_apart ht hu hcovers hcovers' with hin | hin | hbefore | hbefore
  · have hinside := hin.within (hpart hu) hcovers
    omega
  · have hinside := hin.within (hpart ht) hcovers'
    omega
  · have hapart := hnests.apart t u ht hu hkind hkind'
    omega
  · have hapart := hnests.apart u t hu ht hkind' hkind
    omega

end Trees

/-! ## The call at an offset -/

namespace Codebase

variable {b : Codebase} {file : FileId} {offset : Nat} {c d : CallRecord}

theorem mem_touching_iff :
    c ∈ b.calls.filter (fun c => c.site.file = file && c.start ≤ offset && offset ≤ c.stop) ↔
      c ∈ b.calls ∧ c.site.file = file ∧ c.Touches offset := by
  rw [List.mem_filter, Bool.and_eq_true, Bool.and_eq_true, decide_eq_true_iff, decide_eq_true_iff,
    decide_eq_true_iff, and_assoc]
  rfl

/-- There is no call at an offset exactly if no call of the file touches it. -/
theorem callAt?_eq_none_iff : b.callAt? file offset = none ↔
    ∀ c ∈ b.calls, c.site.file = file → ¬ c.Touches offset := by
  rw [callAt?, shortest_eq_none_iff, List.eq_nil_iff_forall_not_mem]
  refine forall_congr' fun c => ?_
  rw [mem_touching_iff, not_and, not_and]

/-- The call at an offset is one of the calls of the file that touch it, and none of them is
shorter. -/
theorem of_callAt? (h : b.callAt? file offset = some c) :
    (c ∈ b.calls ∧ c.site.file = file ∧ c.Touches offset) ∧
      ∀ d ∈ b.calls, d.site.file = file → d.Touches offset →
        c.stop - c.start ≤ d.stop - d.start := by
  obtain ⟨hmem, hleast⟩ := of_shortest h
  exact ⟨mem_touching_iff.1 hmem, fun d hd hfile htouches =>
    hleast d (mem_touching_iff.2 ⟨hd, hfile, htouches⟩)⟩

/-- Every file is read from a tree that nests in its text. -/
def ReadNested (b : Codebase) : Prop :=
  ∀ file m, b.file? file = some m → ∃ tree, m.ReadFrom tree ∧ tree.Nests m.text.toList

/-- A call of a codebase is read off a tree of its file. -/
theorem Numbered.exists_isOf (h : b.Numbered) {m : SourceModule} {tree : SyntaxTree}
    (hm : b.file? c.site.file = some m) (htree : m.ReadFrom tree) (hc : c ∈ b.calls) :
    ∃ t d base, d.IsOf m tree t ∧ c = callRecord c.site.file base c.site.id d := by
  obtain ⟨m', hm', d, hd, base, hrecord, -⟩ := h.recorded c hc
  obtain rfl := Option.some.inj (hm'.symm.trans hm)
  obtain ⟨t, ht⟩ := htree.exists_isOf hd
  exact ⟨t, d, base, ht, hrecord⟩

variable (h : b.Numbered) (hread : b.ReadNested)

include h hread

theorem ReadNested.bracketed (hc : c ∈ b.calls) :
    ∃ m, b.file? c.site.file = some m ∧ c.BracketedIn m.text.toList := by
  obtain ⟨m, hm, -⟩ := h.recorded c hc
  obtain ⟨tree, htree, hnests⟩ := hread _ m hm
  obtain ⟨t, d, base, ht, hrecord⟩ := h.exists_isOf hm htree hc
  refine ⟨m, hm, ?_⟩
  rw [hrecord]
  exact ht.bracketed hnests

theorem ReadNested.within_or_apart (hc : c ∈ b.calls) (hd : d ∈ b.calls)
    (hfile : c.site.file = d.site.file) : c.Within d ∨ d.Within c ∨ c.Apart d := by
  obtain ⟨m, hm, -⟩ := h.recorded c hc
  obtain ⟨tree, htree, hnests⟩ := hread _ m hm
  obtain ⟨t, c', base, ht, hrecord⟩ := h.exists_isOf hm htree hc
  rw [hfile] at hm
  obtain ⟨u, d', base', hu, hrecord'⟩ := h.exists_isOf hm htree hd
  rw [hrecord, hrecord']
  exact ht.within_or_apart hnests hu

/-- The call at an offset lies within every call of the file that the offset is inside of. -/
theorem ReadNested.within_of_callAt? (hc : b.callAt? file offset = some c) (hd : d ∈ b.calls)
    (hfile : d.site.file = file) (hstart : d.start ≤ offset) (hstop : offset < d.stop) :
    c.Within d := by
  obtain ⟨⟨hmem, hsame, hfrom, hto⟩, hleast⟩ := of_callAt? hc
  have hle := hleast d hd hfile ⟨hstart, Nat.le_of_lt hstop⟩
  rcases ReadNested.within_or_apart h hread hmem hd (hsame.trans hfile.symm) with hin | hin | hapart
  · exact hin
  · -- the other one is no shorter, so the two take up the same stretch
    obtain ⟨hafter, hbefore⟩ := hin
    exact ⟨by omega, by omega⟩
  · rcases hapart with hbehind | hbehind <;> omega

end Codebase

namespace Project

open Codebase

/-- A call among the arguments of a call, whose result is called. -/
def chainedCalls : List SourceModule :=
  [.ofText "main.py" "A(b=B(1))(c)\n"]

end Project

end CallFill
