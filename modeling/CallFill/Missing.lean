import CallFill.Host
import CallFill.Options

/-!
# Missing arguments

Which parameters of a call still want an argument. Positional arguments bind the parameters that
take them, in order; keyword arguments bind by name. A call that unpacks arguments, or whose callee
is unknown, is taken to miss nothing.
-/

namespace CallFill

namespace Signature

/-- The names of the parameters that `n` positional arguments bind. -/
def boundByPosition (s : Signature) (n : Nat) : List String :=
  ((s.parameters.filter fun p => !p.isVariadic && !p.isKeywordOnly).take n).map Parameter.name

/-- The names that a call binds, by position or by keyword. -/
def boundNames (s : Signature) (call : CallSite) : List String :=
  s.boundByPosition call.positional ++ call.keywords

end Signature

/-- Whether a parameter can be given by keyword and is meant to be. -/
def Parameter.isOffered (p : Parameter) : Bool :=
  !p.isVariadic && !p.isPositionalOnly && p.name.toList.head? != some '_'

/-- Whether parameters with a default are filled as well. -/
def Options.includesDefaulted (o : Options) : Bool :=
  o.mode = .all || o.useLocalScope

namespace Host

/-- The parameters of a call that want an argument, in the order of declaration. -/
def missing (h : Host) (call : CallSite) (o : Options) : List Parameter :=
  match h.callee call with
  | none => []
  | some s =>
    if call.hasUnpacking then []
    else
      s.parameters.filter fun p =>
        p.isOffered && !(s.boundNames call).contains p.name &&
          (o.includesDefaulted || !p.hasDefault)

/-- Whether anything at all can be filled. -/
def isAvailable (h : Host) (call : CallSite) : Bool :=
  !(h.missing call {}).isEmpty

end Host

end CallFill
