import ChannelDirectory.Batch
import ChannelDirectory.Query.Compile
import ChannelDirectory.Record.Codec
import ChannelDirectory.Record.Validation
import ChannelDirectory.Store.Backend

/-!
# Errors of the directory

`Error` has one constructor for each cause. `Error.kind` says how a caller should react,
`Error.message` what to show, and `Error.suggestion` what may help.
-/

namespace ChannelDirectory

/-- How a caller should react to an error. -/
inductive ErrorKind where
  /-- The request is at fault; the same request will fail again. -/
  | client
  /-- Something that the request names does not exist. -/
  | notFound
  /-- Some operations of a batch were carried out and some were not. -/
  | partialFailure
  /-- Storage or backend are at fault. -/
  | infrastructure
  deriving DecidableEq, Repr

/-- Why an operation of the directory failed. -/
inductive Error where
  | query (cause : QueryError)
  /-- A page of a listing would reach too far. -/
  | windowTooLarge (reach max : Nat)
  | validation (cause : ValidationError)
  /-- The record is not the one that the request names. -/
  | nameMismatch (kind : RecordKind) (requested payload : String)
  /-- There is no record of this name. -/
  | notFound (kind : RecordKind) (name : String)
  /-- Some operations of a batch failed. -/
  | partialFailure (applied : Nat) (failures : List Failure)
  | backend (cause : BackendError)
  /-- A stored document is no record. -/
  | invalidDocument (index id : String) (cause : DecodeError)
  | unreadableFile (path reason : String)
  | unwritableFile (path reason : String)
  /-- A configuration text is no configuration. -/
  | malformedConfig
  /-- A snapshot text is no snapshot. -/
  | malformedSnapshot
  deriving DecidableEq

namespace Error

/-- What the error says to a user. -/
def message : Error → String
  | query cause => "Invalid query: " ++ cause.message
  | windowTooLarge reach max =>
    "Result window is too large, ~from + ~size must be less than or equal to " ++ toString max ++
      " but was " ++ toString reach
  | validation cause => cause.message
  | nameMismatch kind requested payload =>
    "The " ++ kind.word ++ " name '" ++ payload ++ "' does not match the requested name '" ++
      requested ++ "'"
  | notFound .channel name => "Channel '" ++ name ++ "' does not exist"
  | notFound .tag name => "Tag '" ++ name ++ "' does not exist"
  | notFound .property name => "Property '" ++ name ++ "' does not exist"
  | partialFailure applied failures =>
    "Bulk request failed: " ++ toString failures.length ++ " of " ++
      toString (applied + failures.length) ++ " operations could not be applied"
  | backend cause => cause.message
  | invalidDocument index id cause =>
    "Document '" ++ id ++ "' in index '" ++ index ++ "' is malformed: " ++ cause.message
  | unreadableFile path reason => "Failed to read file '" ++ path ++ "': " ++ reason
  | unwritableFile path reason => "Failed to write file '" ++ path ++ "': " ++ reason
  | malformedConfig => "Failed to parse YAML: not a mapping of settings"
  | malformedSnapshot => "Failed to parse JSON: not a snapshot"

/-- How a caller should react. -/
def kind : Error → ErrorKind
  | query _ | windowTooLarge .. | validation _ | nameMismatch .. | malformedConfig => .client
  | notFound .. => .notFound
  | partialFailure .. => .partialFailure
  | backend (.rejected _) => .client
  | backend (.scrollNotFound _) => .notFound
  | backend .unavailable | invalidDocument .. | unreadableFile .. | unwritableFile ..
  | malformedSnapshot => .infrastructure

/-- What may help, where something does. -/
def suggestion : Error → Option String
  | windowTooLarge .. => some "Use the scroll API (`export`) to page through large result sets"
  | query _ => some "~size and ~from take non-negative integers"
  | notFound .channel _ => some "Check the channel name or create the channel first"
  | notFound .tag _ => some "Create the tag before assigning it to channels"
  | notFound .property _ => some "Create the property before assigning it to channels"
  | backend (.scrollNotFound _) => some "Scroll cursors expire; open a new scroll"
  | partialFailure .. =>
    some "Re-read the affected records; re-submitting the request is safe for additions"
  | _ => none

/-- The caller can do something about the error. -/
def isRecoverable (e : Error) : Bool :=
  e.kind == .client || e.kind == .notFound

/-- The message of the error that this one wraps, where it wraps one. -/
def cause? : Error → Option String
  | query cause => some cause.message
  | validation cause => some cause.message
  | unreadableFile _ reason | unwritableFile _ reason => some reason
  | _ => none

end Error

end ChannelDirectory
