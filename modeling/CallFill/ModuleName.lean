import CallFill.FilePath
import CallFill.Text.Dotted

/-!
# Module names

The dotted name of the module in a file, and the module a reference inside it means. A reference
with leading dots is relative: one dot is the package the module lies in, and each further dot
climbs one level. A reference that climbs above the root means nothing.
-/

namespace CallFill.ModuleName

/-- The name of the module in a file, and whether the file initializes a package. -/
def ofPath (path : String) : String × Bool :=
  let names := FilePath.components path |>.filter fun s => s ≠ "/" && s ≠ "."
  let parts := match names.getLast? with
    | none => []
    | some name => if name = ".." then names
      else names.dropLast ++ [(FilePath.splitExtension name).1]
  let parts := parts.filter fun s => s ≠ ".." && !FilePath.isIdle s
  if parts.getLast? = some "__init__" then (Dotted.ofSegments parts.dropLast, true)
  else (Dotted.ofSegments parts, false)

/-- The segments of a module's name; the unnamed module has none. -/
def segments (module : String) : List String :=
  if module = "" then [] else Dotted.segments module

/-- The module that a reference inside the module `current` means. -/
def absolute (current : String) (isPackage : Bool) (reference : String) : Option String :=
  if reference = "" then none
  else
    match reference.toList.takeWhile (· == '.') with
    | [] => some reference
    | _ :: further =>
      let climbs := if isPackage then further.length else further.length + 1
      let base := segments current
      if base.length < climbs then none
      else
        let suffix := String.ofList (reference.toList.dropWhile (· == '.'))
        let parts := base.take (base.length - climbs) ++ segments suffix
        if parts.isEmpty then none else some (Dotted.ofSegments parts)

end CallFill.ModuleName
