import CallFill.Disk.IgnoreRules
import CallFill.Error
import CallFill.FilePath
import CallFill.KeyedList

/-!
# Files below a directory

A disk is what lies below one directory: files by their paths, each a list of names. A directory is
there as long as files lie below it. Reading and writing take paths as they are written, with single
and double dots. `sources` lists the source files, in the order of their names, with all that is
hidden or ignored left out.
-/

namespace CallFill

/-- The files below a directory, as lists of bytes. -/
structure Disk where
  files : KeyedList (List String) (List UInt8) := []

namespace Disk

/-- The text that bytes spell in UTF-8. -/
def textOf? (content : List UInt8) : Option String :=
  String.fromUTF8? ⟨content.toArray⟩

/-- The bytes of a text. -/
def bytesOf (text : String) : List UInt8 :=
  Text.Glob.bytes text.toList

variable (d : Disk)

/-- Whether there is a directory at a place: the root, what lies above it, or what files lie
below. -/
def isDirectory (place : List String) : Bool :=
  place.all (· = "..") ||
    d.files.any fun f => place.isPrefixOf f.1 && place.length < f.1.length

/-- Whether a file system takes the name. -/
def isName (name : String) : Bool :=
  name.utf8ByteSize ≤ 255 && !name.toList.contains '\x00'

/-- The place above a place. -/
def parent (place : List String) : List String :=
  if place.all (· = "..") then place ++ [".."] else place.dropLast

/-- The place of a file that segments lead to from a directory. -/
def placeFrom? (place : List String) : List String → Option (List String)
  | [] => none
  | [name] =>
    if FilePath.isIdle name || name = ".." || !isName name then none
    else if d.isDirectory (place ++ [name]) then none
    else some (place ++ [name])
  | name :: rest =>
    if FilePath.isIdle name then placeFrom? place rest
    else if name = ".." then placeFrom? (parent place) rest
    else if d.isDirectory (place ++ [name]) then placeFrom? (place ++ [name]) rest
    else none

/-- The place of a file at a path below the directory. -/
def place? (path : String) : Option (List String) :=
  if path.toList.head? = some '/' then none else d.placeFrom? [] (FilePath.split path)

/-- The text at a path, if a file with a text is there. -/
def read? (path : String) : Option String :=
  ((d.place? path).bind (KeyedList.get? d.files)).bind textOf?

/-- Writes a text at a path. Directories are not made. -/
def write (path text : String) (d : Disk) : Except Error Unit × Disk :=
  match d.place? path with
  | some place => (.ok (), { files := KeyedList.put d.files place (bytesOf text) })
  | none => (.error .io, d)

/-- Adds a file together with the directories around it. -/
def create (path : String) (content : List UInt8) (d : Disk) : Disk :=
  let place := (FilePath.split path).filter fun name => !FilePath.isIdle name
  { files := KeyedList.put d.files place content }

/-- The lines of a file as far as they are text. -/
def textLines (content : List UInt8) : List (List Char) :=
  let rec go : List UInt8 → List (List UInt8)
    | [] => [[]]
    | b :: bs =>
      if b = 10 then [] :: go bs
      else
        match go bs with
        | [] => [[b]]
        | line :: lines => (b :: line) :: lines
  let lines := (go content).map textOf?
  (lines.takeWhile Option.isSome).filterMap fun line => line.map String.toList

/-- A text without the byte order marks at its start. -/
def withoutMark (line : List Char) : List Char :=
  line.dropWhile (· == '\uFEFF')

/-- The rules in a file. -/
def rulesIn (place : List String) : List IgnoreRule :=
  match KeyedList.get? d.files place with
  | none => []
  | some content =>
    match textLines content with
    | [] => []
    | first :: rest => (withoutMark first :: rest).filterMap IgnoreRule.ofLine?

/-- The files that may hold rules for what lies below a directory, the most binding first. -/
def ruleFiles : List (List String) := [[".ignore"], [".gitignore"], [".git", "info", "exclude"]]

/-- Directories that hold no sources of one's own. -/
def skippedNames : List String := ["__pycache__", "node_modules", "venv", "site-packages"]

/-- What the rules in files of one kind say about a path: those of the nearest directory decide.
`above` is the directory the path starts from, and `below` the names that follow. -/
def verdictOf? (file : List String) (isDirectory : Bool) :
    (above below : List String) → Option Verdict
  | _, [] => none
  | above, name :: below =>
    verdictOf? file isDirectory (above ++ [name]) below <|>
      verdict? (d.rulesIn (above ++ file)) ("/".intercalate (name :: below)) isDirectory

/-- Whether an entry is left out: the rules say so, or it is hidden and no rule brings it back, or
its name is one of those always left out. -/
def isSkipped (place : List String) (isDirectory : Bool) : Bool :=
  let name := place.getLast?.getD ""
  skippedNames.contains name ||
    match ruleFiles.findSome? fun file => d.verdictOf? file isDirectory [] place with
    | some .ignored => true
    | some .included => false
    | none => name.toList.head? = some '.'

/-- Whether a file and all directories above it are listed. -/
def isListed (place : List String) : Bool :=
  (List.range place.length).all fun i => !d.isSkipped (place.take (i + 1)) (i + 1 < place.length)

/-- Whether one place comes before another, name by name. -/
def precedes : List String → List String → Bool
  | [], _ => true
  | _ :: _, [] => false
  | a :: as, b :: bs => a < b || (a == b && precedes as bs)

/-- The path of a place, with slashes throughout. -/
def pathOf (place : List String) : String :=
  FilePath.slashed ("/".intercalate place)

/-- The source files and their texts. Files that are no text are left out. -/
def sources : List (String × String) :=
  let places := (d.files.map (·.1)).filter fun place =>
    FilePath.isSource ("/".intercalate place) && d.isListed place
  (places.mergeSort precedes).filterMap fun place =>
    ((KeyedList.get? d.files place).bind textOf?).map fun text => (pathOf place, text)

end Disk

end CallFill
