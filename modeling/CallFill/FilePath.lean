import CallFill.Text.Blank

/-!
# File paths

A path is a text of segments between slashes. Empty segments and single dots say nothing, except for
a leading slash (the root) and a leading single dot (the current directory), which are components of
their own. Everything here looks at the text alone.
-/

namespace CallFill.FilePath

/-- Whether a segment names nothing. -/
def isIdle (segment : String) : Bool :=
  segment = "" || segment = "."

/-- The segments of a text between its slashes. -/
def split (path : String) : List String :=
  (Text.pieces (· == '/') path.toList).map String.ofList

/-- The leading root or current directory of a path, and the segments after it. -/
def leadAndBody (path : String) : String × List String :=
  match path.toList with
  | '/' :: rest => ("/", split (String.ofList rest))
  | ['.'] => (".", [])
  | '.' :: '/' :: rest => (".", "" :: split (String.ofList rest))
  | _ => ("", split path)

/-- What a path consists of: its lead, if any, and the segments that name something. -/
def components (path : String) : List String :=
  let (lead, body) := leadAndBody path
  (if lead = "" then [] else [lead]) ++ body.filter fun s => !isIdle s

/-- The last component, if it is the name of a file. -/
def fileName? (path : String) : Option String :=
  (leadAndBody path).2.filter (fun s => !isIdle s) |>.getLast? |>.filter (· ≠ "..")

/-- What stands before and after the last dot of a file name; a dot that opens the name does not
count. -/
def splitExtension (name : String) : String × Option String :=
  let cs := name.toList
  match cs.reverse.dropWhile (· != '.') with
  | [] => (name, none)
  | [_] => (name, none)
  | _ :: before =>
    (String.ofList before.reverse, some (String.ofList (cs.reverse.takeWhile (· != '.')).reverse))

/-- Whether the path is that of a source file: its extension is `py`, in any case. -/
def isSource (path : String) : Bool :=
  match fileName? path with
  | none => false
  | some name =>
    match (splitExtension name).2 with
    | some ext => ext.toList.map Char.toLower == ['p', 'y']
    | none => false

/-- The segments without the idle ones at the end. -/
def trimIdleEnd (segments : List String) : List String :=
  (segments.reverse.dropWhile isIdle).reverse

/-- The segments after some components that they start with. -/
def afterComponents : List String → List String → Option (List String)
  | [], segments => some segments
  | c :: cs, segments =>
    match segments.dropWhile isIdle with
    | s :: rest => if s = c then afterComponents cs rest else none
    | [] => none

/-- What follows the components of a directory in a path, if the path starts with them. -/
def stripPrefix? (root path : String) : Option String :=
  let (lead, body) := leadAndBody path
  match components root with
  | [] => some (lead ++ "/".intercalate (trimIdleEnd body))
  | c :: cs =>
    let rest := if lead = "" then afterComponents (c :: cs) body
      else if lead = c then afterComponents cs body
      else none
    rest.map fun segments => "/".intercalate (trimIdleEnd (segments.dropWhile isIdle))

/-- The text with slashes for backslashes. -/
def slashed (path : String) : String :=
  String.ofList (path.toList.map fun c => if c == '\\' then '/' else c)

/-- The path relative to a directory, or the path itself outside it, with slashes throughout. -/
def relativeTo (root path : String) : String :=
  slashed ((stripPrefix? root path).getD path)

/-- Drops every `./` at the start. -/
def dropCurrent : List Char → List Char
  | '.' :: '/' :: rest => dropCurrent rest
  | cs => cs

/-- The spelling under which a file is found: slashes throughout and no `./` at the start. -/
def normalized (path : String) : String :=
  String.ofList (dropCurrent (slashed path).toList)

end CallFill.FilePath
