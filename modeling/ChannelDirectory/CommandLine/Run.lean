import ChannelDirectory.Attributes
import ChannelDirectory.Channels
import ChannelDirectory.CommandLine.Arguments
import ChannelDirectory.Config.Reader
import ChannelDirectory.Listing
import ChannelDirectory.Scroll
import ChannelDirectory.Store.Snapshot

/-!
# Running a command

A command runs on the contents of its files, which `Invocation.carryOut` takes as values.
What comes of it is an `Effect`: a text to print, perhaps a new text for the data file, and
a text to print once that is written. `Effect.report` is what the program shows in the end.

The data file is written only after a command that changes the directory and succeeds.

Printing is taken to succeed. Where it matters is the order: a command prints its output before
the data file is written, and creating a data file is announced after it.
-/

namespace ChannelDirectory.CommandLine

/-- Why a file cannot be read or written. -/
inductive FileFault where
  | missing
  | notDirectory
  | isDirectory
  | nameTooLong
  | other (reason : String)
  deriving DecidableEq

/-- What a message says about the fault. -/
def FileFault.message : FileFault → String
  | missing => "No such file or directory (os error 2)"
  | notDirectory => "Not a directory (os error 20)"
  | isDirectory => "Is a directory (os error 21)"
  | nameTooLong => "File name too long (os error 36)"
  | other reason => reason

/-- The text of a file, or why there is none. -/
abbrev FileContent := Except FileFault String

/-- Why a run fails. -/
inductive Fault where
  | directory (error : Error)
  /-- The query of an export cannot be read. -/
  | query (error : QueryError)
  /-- An argument is not a name and a value. -/
  | notAPair (text : String)
  /-- A data file is to be created where there is something. -/
  | alreadyExists (path : String)
  /-- A result set had more pages than documents. -/
  | unfinished

/-- What the fault says. -/
def Fault.message : Fault → String
  | directory error => error.message
  | query error => error.message
  | notAPair text => "expected NAME=VALUE, got '" ++ text ++ "'"
  | alreadyExists path => path ++ " already exists"
  | unfinished => "The result set does not end"

/-- What lies behind the fault, if it says so separately. -/
def Fault.cause? : Fault → Option String
  | directory error => error.cause?
  | _ => none

/-- A text of several lines, each of them indented. -/
def indent (text : String) : String :=
  String.join ((Text.pieces (· == '\n') text.toList).map fun line =>
    "    " ++ String.ofList line ++ "\n")

/-- What a user reads about the fault. -/
def Fault.explanation (fault : Fault) : String :=
  "Error: " ++ fault.message ++ "\n" ++
    (match fault.cause? with
      | some cause => "\nCaused by:\n" ++ indent cause
      | none => "")

/-- What comes of a command. -/
structure Effect where
  /-- What is printed first. -/
  output : String := ""
  /-- The new text of the data file. -/
  save : Option String := none
  /-- What is printed once the data file is written. -/
  afterwards : String := ""
  fault : Option Fault := none

/-- What a program shows when it ends. -/
structure Report where
  exitCode : Nat
  output : String
  errors : String
  deriving DecidableEq

/-- A run that ends well. -/
def Report.success (output : String) : Report := ⟨0, output, ""⟩

/-- A run that ends with a fault. -/
def Report.failure (output : String) (fault : Fault) : Report := ⟨1, output, fault.explanation⟩

/-- How the program is used. -/
def usage : String :=
  "usage: channel-directory [-d FILE] [-c FILE] COMMAND [ARGUMENT]...\n"

/-- Malformed arguments. -/
def Report.misuse : Report := ⟨2, "", usage⟩

/-- Arguments that ask for help, which is a run that ends well. -/
def Report.help : Report := .success usage

/-- The report on arguments that are no invocation. -/
def Refusal.report : Refusal → Report
  | misuse => .misuse
  | help => .help

/-- The report on an effect, given why its data file at a path could not be written if that
was so. -/
def Effect.report (effect : Effect) (path : String) (unwritten : Option FileFault) : Report :=
  match effect.fault with
  | some fault => .failure effect.output fault
  | none =>
    match unwritten with
    | some fault => .failure effect.output (.directory (.unwritableFile path fault.message))
    | none => .success (effect.output ++ effect.afterwards)

/-- The output of a value. -/
def printed (value : Json) : String :=
  value.pretty ++ "\n"

/-- The output of a record. -/
def printedRecord {α : Type} [Entity α] (record : α) : String :=
  printed (Entity.encode Json.object record)

/-- The output of records. -/
def printedRecords {α : Type} [Entity α] (records : List α) : String :=
  printed (.array (records.map (Entity.encode Json.object)))

/-- The name and the value in an argument. -/
def pair? (text : String) : Except Fault (String × String) :=
  match Text.cutAt (· == '=') text.toList with
  | some (name, value) => .ok (String.ofList name, String.ofList value)
  | none => .error (.notAPair text)

/-- A channel with references as arguments give them. -/
def channelOf (name owner : String) (tags : List String) (properties : List (String × String)) :
    Channel :=
  let c : Channel := ⟨name, owner, [], []⟩
  let c := tags.foldl (fun c tag => c.addTag ⟨tag, ""⟩) c
  properties.foldl (fun c (name, value) => c.addProperty ⟨name, "", value⟩) c

namespace Command

/-- The command changes the directory if it succeeds. -/
def modifies : Command → Bool
  | init | query _ | count _ | exportAll _ | read _ | tags | properties => false
  | putChannel .. | removeChannel _ | putTag .. | addTag .. | removeTag .. | putProperty ..
  | removeProperty .. => true

/-- What a command does in the directory, and its output. -/
def program (dir : Directory) : Command → Except Fault (Program String)
  | init => .ok (pure "")
  | query text => .ok do
    return printedRecords (← dir.query (.parse text))
  | count text => .ok do
    return toString (← dir.queryCount (.parse text)) ++ "\n"
  | exportAll text => do
    let query ← (Query.compile (.parse text)).mapError .query
    return do
      return printedRecords (← dir.exportChannels (dir.scrollPageSize none) query.predicate)
  | read name => .ok do
    return printedRecord (← dir.readChannel name)
  | putChannel name owner tagNames members => do
    let pairs ← members.mapM pair?
    return do
      return printedRecord (← dir.createChannel name (channelOf name owner tagNames pairs))
  | removeChannel name => .ok do
    dir.removeChannel name
    return "Channel '" ++ name ++ "' deleted.\n"
  | tags => .ok do
    return printedRecords (← dir.listAttributes Tag)
  | properties => .ok do
    return printedRecords (← dir.listAttributes Property)
  | putTag name owner channels => .ok do
    let tag : Tag := ⟨name, owner, []⟩
    return printedRecord (← dir.createAttribute name (tag.withChannels channels))
  | addTag name channel => .ok do
    let tag : Tag := ⟨name, "", []⟩
    return printedRecord (← dir.addToChannel name channel tag)
  | removeTag name (some channel) => .ok do
    dir.removeFromChannel Tag name channel
    return "Tag '" ++ name ++ "' removed from '" ++ channel ++ "'.\n"
  | removeTag name none => .ok do
    dir.removeAttribute Tag name
    return "Tag '" ++ name ++ "' deleted.\n"
  | putProperty name owner members => do
    let members ← members.mapM pair?
    let property : Property := ⟨name, owner, none, []⟩
    return do
      return printedRecord (← dir.createAttribute name (property.withChannelValues members))
  | removeProperty name (some channel) => .ok do
    dir.removeFromChannel Property name channel
    return "Property '" ++ name ++ "' removed from '" ++ channel ++ "'.\n"
  | removeProperty name none => .ok do
    dir.removeAttribute Property name
    return "Property '" ++ name ++ "' deleted.\n"

/-- The effect of a command on a store. -/
def effect (command : Command) (config : Config) (store : Store) : Effect :=
  match command.program ⟨config, store.pageBudget⟩ with
  | .error fault => { fault := some fault }
  | .ok program =>
    match program.run { store, window := config.maxResultWindow } with
    | (.ok output, backend) =>
      { output, save := if command.modifies then some backend.store.save else none }
    | (.failed error, _) => { fault := some (.directory error) }
    | (.exhausted, _) => { fault := some .unfinished }

end Command

/-- The configuration in a file, or the default one. -/
def loadConfig : Option (String × FileContent) → Except Error Config
  | none => .ok {}
  | some (_, .ok text) => Config.read text
  | some (path, .error fault) => .error (.unreadableFile path fault.message)

/-- The store in a data file. A file that does not exist holds an empty store. -/
def loadStore (path : String) : FileContent → Except Error Store
  | .ok text =>
    match Store.load text with
    | some store => .ok store
    | none => .error .malformedSnapshot
  | .error .missing => .ok .empty
  | .error fault => .error (.unreadableFile path fault.message)

/-- The effect of creating a data file. -/
def create (path : String) : FileContent → Effect
  | .ok _ | .error .isDirectory => { fault := some (.alreadyExists path) }
  | .error _ =>
    { save := some Store.empty.save
      afterwards := "Initialized empty directory at " ++ path ++ "\n" }

/-- The effect of an invocation, given what its files hold. -/
def Invocation.carryOut (invocation : Invocation) (config : Option FileContent)
    (data : FileContent) : Effect :=
  match loadConfig (invocation.config.bind fun path => config.map (path, ·)) with
  | .error error => { fault := some (.directory error) }
  | .ok config =>
    match invocation.command with
    | .init => create invocation.data data
    | command =>
      match loadStore invocation.data data with
      | .error error => { fault := some (.directory error) }
      | .ok store => command.effect config store

end ChannelDirectory.CommandLine
