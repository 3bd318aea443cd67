import CallFill.Distinct
import CallFill.ProjectHost
import CallFill.TextEdit
import CallFill.Transaction

/-!
# Editing a project

An editor collects what is asked of it in a transaction and carries it out at the commit, on the
texts that the project was built from: argument lists are replaced, keyword arguments are appended,
and lines that import names are added at one place of the file. The project itself stays as it is,
and so a file can be committed only once. A commit changes all its documents or none.
-/

namespace CallFill

/-- What has been asked for in an open transaction. -/
structure PendingEdits where
  /-- New texts between the parentheses of calls. -/
  replaced : KeyedList CallId String := []
  /-- Arguments to be appended to calls. -/
  appended : KeyedList CallId (List String) := []
  /-- Import lines to be added to files. -/
  imports : KeyedList FileId (List String) := []

/-- The state of an editor: the open transaction and the texts committed so far. -/
structure EditorState where
  pending : Option PendingEdits := none
  documents : KeyedList FileId String := []

namespace CallRecord

/-- Whether a text may be overwritten by appended arguments. -/
def isTrailing (text : List Char) : Bool :=
  text.all fun c => c == ',' || c == ' ' || c == '\t'

/-- The range that appended arguments overwrite. What stands between the last argument and the
closing parenthesis is kept, unless it is only a trailing comma and spaces on the same line. -/
def appendRange (source : List Char) (c : CallRecord) : Nat × Nat :=
  match c.lastArgumentEnd with
  | none => (c.openParen + 1, c.closeParen)
  | some last =>
    if isTrailing (Text.slice source last c.closeParen) then (last, c.closeParen) else (last, last)

/-- The edit that replaces what stands between the parentheses of a call. -/
def replacement (c : CallRecord) (inner : String) : TextEdit where
  start := c.openParen + 1
  stop := c.closeParen
  text := inner

/-- The edit that appends arguments to a call. -/
def addition (source : List Char) (c : CallRecord) (arguments : List String) : TextEdit where
  start := (c.appendRange source).1
  stop := (c.appendRange source).2
  text :=
    let list := ", ".intercalate arguments
    if c.lastArgumentEnd.isSome then ", " ++ list else list

end CallRecord

namespace SourceModule

/-- The edit that adds import lines: on lines of their own after what stands before them, or at the
start of the text. -/
def importEdit (m : SourceModule) (lines : List String) : TextEdit where
  start := m.importOffset
  stop := m.importOffset
  text :=
    let block := "\n".intercalate lines
    if 0 < m.importOffset then "\n" ++ block else block ++ "\n"

end SourceModule

namespace Project

variable (p : Project)

/-- The record of a call. -/
def recordOf (id : CallId) : Except Error CallRecord :=
  match p.call? id with
  | some c => .ok c
  | none => .error (.rejected (.unknownCall id))

/-- The module in a file. -/
def moduleOf (file : FileId) : Except Error SourceModule :=
  match p.file? file with
  | some m => .ok m
  | none => .error (.unknownFile file.label)

/-- The edits that a transaction comes to, each with its file. -/
def editsOf (t : PendingEdits) : Except Error (List (FileId × TextEdit)) := do
  let replaced ← t.replaced.mapM fun (id, inner) => do
    let c ← p.recordOf id
    return (c.site.file, c.replacement inner)
  let appended ← t.appended.mapM fun (id, arguments) => do
    let c ← p.recordOf id
    let m ← p.moduleOf c.site.file
    return (c.site.file, c.addition m.text.toList arguments)
  let imports ← t.imports.mapM fun (file, lines) => do
    let m ← p.moduleOf file
    return (file, m.importEdit lines)
  return replaced ++ appended ++ imports

/-- The text of a file after its edits; a file that was committed before is not edited again. -/
def editedText (documents : KeyedList FileId String) (file : FileId) (edits : List TextEdit) :
    Except Error String := do
  if KeyedList.has documents file then throw (.rejected (.alreadyEdited file))
  let m ← p.moduleOf file
  TextEdit.applyAll m.text edits

/-- The texts that a transaction leaves, in the order in which its edits first reach the files. -/
def editedTexts (documents : KeyedList FileId String) (t : PendingEdits) :
    Except Error (KeyedList FileId String) := do
  let edits ← p.editsOf t
  (dedupBy id (edits.map (·.1))).mapM fun file => do
    let ofFile := (edits.filter fun e => e.1 = file).map (·.2)
    return (file, ← p.editedText documents file ofFile)

/-- Commits the open transaction, which ends also if the commit fails. -/
def commitEdits (s : EditorState) : Except Error Unit × EditorState :=
  match s.pending with
  | none => (.error (.rejected .noTransaction), s)
  | some t =>
    let closed := { s with pending := none }
    match p.editedTexts s.documents t with
    | .error e => (.error e, closed)
    | .ok texts => (.ok (), { closed with documents := KeyedList.putAll s.documents texts })

/-- Adds to the open transaction. -/
def amend (s : EditorState) (change : PendingEdits → PendingEdits) :
    Except Error Unit × EditorState :=
  match s.pending with
  | none => (.error (.rejected .noTransaction), s)
  | some t => (.ok (), { s with pending := some (change t) })

/-- Whether a file can name a symbol as it is: a builtin, a symbol of the module itself, or one that
an import makes visible. -/
def isNameable (file : FileId) (m : SourceModule) (symbol : SymbolId) (s : Symbol) : Bool :=
  s.kind = .builtin || s.module = m.name || (p.visibleAlias? file symbol).isSome

/-- The line that imports a symbol. -/
def importLine (s : Symbol) : String :=
  "from " ++ s.module ++ " import " ++ s.name

/-- Notes an edit in the open transaction. Making a symbol importable that the file can name already
needs no transaction. -/
def noteEdit (edit : Edit) (s : EditorState) : Except Error Unit × EditorState :=
  match edit with
  | .replace call inner =>
    amend s fun t => { t with replaced := KeyedList.put t.replaced call.id inner }
  | .append call name value =>
    amend s fun t =>
      let arguments := (KeyedList.get? t.appended call.id).getD []
      { t with appended := KeyedList.put t.appended call.id (arguments ++ [name ++ "=" ++ value]) }
  | .ensureImported file _ symbol =>
    match p.moduleOf file with
    | .error e => (.error e, s)
    | .ok m =>
      match p.symbols.get? symbol with
      | none => (.ok (), s)
      | some sym =>
        if p.isNameable file m symbol sym then (.ok (), s)
        else
          amend s fun t =>
            let lines := (KeyedList.get? t.imports file).getD []
            let line := importLine sym
            let lines := if lines.contains line then lines else lines ++ [line]
            { t with imports := KeyedList.put t.imports file lines }

/-- The editor of a project's files. -/
def editor : Editor EditorState where
  begin s :=
    match s.pending with
    | some _ => (.error (.rejected .transactionOpen), s)
    | none => (.ok (), { s with pending := some {} })
  commit := p.commitEdits
  rollback s := { s with pending := none }
  edit := p.noteEdit

end Project

end CallFill
