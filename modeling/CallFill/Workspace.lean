import CallFill.Population
import CallFill.ProjectEditor

/-!
# Workspaces

A workspace holds source texts by path and the project built from them. Calls are addressed by a
path and a byte offset. A population that edits a file writes the new text back and builds the
project again, so that the next offset is one of the new text. Paths whose texts have changed are
kept until they are saved below the directory that the workspace was loaded from.
-/

namespace CallFill

/-- Source texts, the project built from them, and what has not been saved. -/
structure Workspace where
  config : Config
  /-- What reads the texts. -/
  read : Source.TreeReader := Source.parse
  sources : KeyedList String String
  /-- Whether the files were loaded from a directory, to which they can be saved. -/
  isLoaded : Bool := false
  /-- The paths whose texts have changed since they were last written. -/
  unsaved : List String := []
  project : Project

namespace Workspace

/-- The workspace of source texts; of two texts for one path the later one counts. -/
def ofSources (config : Config) (sources : List (String × String))
    (read : Source.TreeReader := Source.parse) : Workspace :=
  let sources := KeyedList.putAll [] sources
  { config, read, sources, project := Project.ofSources config sources read }

/-- The workspace of the files below a directory. -/
def ofDirectory (config : Config) (files : List (String × String))
    (read : Source.TreeReader := Source.parse) : Workspace :=
  { ofSources config files read with isLoaded := true }

variable (w : Workspace)

/-- The text at a path. -/
def source? (path : String) : Option String :=
  KeyedList.get? w.sources path

/-- Adds a path to those that have changed. -/
def markUnsaved (unsaved : List String) (path : String) : List String :=
  if unsaved.contains path then unsaved else unsaved ++ [path]

/-- Writes texts and builds the project again. -/
def write (texts : List (String × String)) : Workspace :=
  let sources := KeyedList.putAll w.sources texts
  { w with
    sources
    unsaved := (texts.map (·.1)).foldl markUnsaved w.unsaved
    project := Project.ofSources w.config sources w.read }

/-- Replaces the text at a path. -/
def update (path text : String) : Workspace :=
  w.write [(path, text)]

/-- The call at a byte offset of a file. -/
def locate (path : String) (offset : Nat) : Except Error CallRecord :=
  match w.project.fileByPath? path with
  | none => .error (.unknownFile path)
  | some file =>
    match w.project.callAt? file offset with
    | none => .error (.noCallAt path offset)
    | some c => .ok c

/-- Whether the call has anything to fill. -/
def isAvailable (path : String) (offset : Nat) : Except Error Bool :=
  (w.locate path offset).map fun c => w.project.host.isAvailable c.site

/-- The parameters of the call that have no argument yet. -/
def missing (path : String) (offset : Nat) (o : Options) : Except Error (List Parameter) :=
  (w.locate path offset).map fun c => w.project.host.missing c.site o

/-- The choices to be made for the missing parameters. -/
def requests (path : String) (offset : Nat) (o : Options) : Except Error (List ChoiceRequest) :=
  (w.missing path offset o).map fun missing => w.project.host.requests w.config missing

/-- Whether there are choices to be made. -/
def hasUnionChoices (path : String) (offset : Nat) (o : Options) : Except Error Bool :=
  (w.requests path offset o).map fun requests => !requests.isEmpty

/-- Whether filling the call may write out nested records. -/
def isRecursiveApplicable (path : String) (offset : Nat) : Except Error Bool :=
  (w.locate path offset).map fun c => w.project.host.isRecursiveApplicable c.site

/-- The text of a call with more arguments. -/
def renderCall (source : List Char) (c : CallRecord) (arguments : List String) : String :=
  let slice (start stop : Nat) : String := String.ofList (Text.slice source start stop)
  let list := ", ".intercalate arguments
  let tail := slice c.closeParen c.stop
  if arguments.isEmpty then slice c.start c.stop
  else if c.site.argumentCount = 0 then slice c.start (c.openParen + 1) ++ list ++ tail
  else
    let (start, stop) := c.appendRange source
    slice c.start start ++ ", " ++ list ++ slice stop c.closeParen ++ tail

/-- The text of the call as filling it would leave it. -/
def preview (path : String) (offset : Nat) (o : Options) (sel : Selections) :
    Except Error String :=
  (w.locate path offset).map fun c =>
    let plan := w.project.host.plan w.config c.site o sel
    renderCall ((w.source? path).getD "").toList c (plan.map PlannedArgument.text)

/-- The paths and texts of the files that an editor has committed. -/
def committed (s : EditorState) : List (String × String) :=
  s.documents.filterMap fun (file, text) => (w.project.file? file).map fun m => (m.path, text)

/-- The workspace after a population: unless it failed, the committed texts are written. -/
def afterPopulation (result : Except Error Report × Stage × EditorState) :
    Except Error Report × Workspace :=
  match result with
  | (.error e, _, _) => (.error e, w)
  | (.ok report, _, s) =>
    (.ok report, if s.documents.isEmpty then w else w.write (w.committed s))

/-- Fills the call with the answers given. -/
def populateWith (path : String) (offset : Nat) (o : Options) (sel : Selections) :
    Except Error Report × Workspace :=
  match w.locate path offset with
  | .error e => (.error e, w)
  | .ok c => w.afterPopulation (w.project.host.populate w.config w.project.editor c.site o sel {})

/-- Fills the call after asking about ambiguous unions. -/
def populate {τ : Type} (path : String) (offset : Nat) (o : Options) (chooser : Chooser τ)
    (asked : τ) : (Except Error Report × Workspace) × τ :=
  match w.locate path offset with
  | .error e => ((.error e, w), asked)
  | .ok c =>
    let (result, asked) :=
      w.project.host.run w.config w.project.editor chooser c.site o asked {}
    (w.afterPopulation result, asked)

/-- Writes the texts at some paths, up to the first that fails; `written` counts those before. -/
def writeAll {δ : Type} (writeFile : String → String → δ → Except Error Unit × δ)
    (written : Nat) (disk : δ) : List String → Except Error Nat × δ
  | [] => (.ok written, disk)
  | path :: paths =>
    match w.source? path with
    | none => writeAll writeFile written disk paths
    | some text =>
      match writeFile path text disk with
      | (.ok (), disk) => writeAll writeFile (written + 1) disk paths
      | (.error e, disk) => (.error e, disk)

/-- Writes the changed texts below the directory, where `writeFile` writes a text at a path and may
fail: the number of files written, or the error, with the workspace and the disk after it. The paths
count as changed until all are written. -/
def save {δ : Type} (writeFile : String → String → δ → Except Error Unit × δ) (disk : δ) :
    (Except Error Nat × Workspace) × δ :=
  if w.isLoaded then
    match w.writeAll writeFile 0 disk w.unsaved with
    | (.ok n, disk) => ((.ok n, { w with unsaved := [] }), disk)
    | (.error e, disk) => ((.error e, w), disk)
  else ((.error .notOnDisk, w), disk)

end Workspace

end CallFill
