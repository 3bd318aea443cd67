import CallFill.Handle
import CallFill.Text.Quoted

/-!
# Errors

What an operation of the library can be refused for, as causes. The wording of every message is in
`Error.message`. Reading a file or a JSON text fails without a wording of its own.
-/

namespace CallFill

/-- The requests an editor answers inside a transaction, and those that open and close one. -/
inductive EditRequest where
  | begin
  | commit
  | replace
  | append
  | ensureImport
  deriving DecidableEq, Repr

/-- The word for a request in messages. -/
def EditRequest.name : EditRequest → String
  | .begin => "begin"
  | .commit => "commit"
  | .replace => "replace"
  | .append => "append"
  | .ensureImport => "import"

/-- Why an edit was rejected. -/
inductive Rejection where
  | noTransaction
  | transactionOpen
  | unknownCall (call : CallId)
  /-- The edit's range does not lie in the document, or cuts a character. -/
  | outsideDocument (start stop : Nat)
  /-- The document has changed since the calls were recorded. -/
  | alreadyEdited (file : FileId)
  /-- The editor refuses requests of this form. -/
  | refused (request : EditRequest)
  deriving DecidableEq, Repr

/-- The wording of a rejection. -/
def Rejection.message : Rejection → String
  | .noTransaction => "no open transaction"
  | .transactionOpen => "a transaction is already open"
  | .unknownCall call => "unknown call " ++ call.label
  | .outsideDocument start stop =>
    "edit range " ++ toString start ++ ".." ++ toString stop ++ " is outside the document"
  | .alreadyEdited file => file.label ++ " was already edited; rebuild the project first"
  | .refused request => request.name ++ " refused"

/-- Why an operation gave no result. -/
inductive Error where
  | unknownFile (path : String)
  | noCallAt (path : String) (offset : Nat)
  | cancelled
  | rejected (cause : Rejection)
  /-- There is no directory to write the files to. -/
  | notOnDisk
  /-- The depth given from outside is no natural number that fits in 64 bits. -/
  | badDepth (given : String)
  /-- The mode given from outside, as it was understood. -/
  | unknownMode (given : String)
  | io
  | json
  deriving DecidableEq, Repr

/-- The wording of an error. -/
def Error.message : Error → String
  | .unknownFile path => "Unknown file: " ++ path
  | .noCallAt path offset => "No call expression at " ++ path ++ ":" ++ toString offset
  | .cancelled => "Operation cancelled"
  | .rejected cause => "Edit rejected: " ++ cause.message
  | .notOnDisk => "Config error: workspace was not loaded from disk"
  | .badDepth given =>
    "Config error: ARGFILL_MAX_DEPTH must be a non-negative integer, got " ++ Text.quoted given
  | .unknownMode given => "unknown populate mode: " ++ given
  | .io => "IO error"
  | .json => "JSON error"

end CallFill
