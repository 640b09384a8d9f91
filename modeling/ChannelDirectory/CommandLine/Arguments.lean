import ChannelDirectory.Text.Split

/-!
# Command line arguments

An invocation names a data file, perhaps a configuration file, and a command with its own
arguments. `Invocation.parse` reads it off the arguments, or says why they are none: they are
malformed, or they ask how the program is used.

An option is written `--name value`, `--name=value`, `-n value`, `-n=value` or `-nvalue`.
The argument after an option is its value unless it looks like an option itself. Arguments
that are no options may stand before, between and after options, and everything after `--`
is one of them.

Arguments are read from left to right, and what is met first decides. So `--help`, or `-h` in
front of anything, asks for help unless something before it is malformed, even if an argument
that a command needs is missing. An option whose value is an argument of its own is checked
when the next argument is read, and the last one before a command only after this command.
-/

namespace ChannelDirectory.CommandLine

/-- Why arguments are no invocation. -/
inductive Refusal where
  /-- They are malformed. -/
  | misuse
  /-- They ask how the program is used. -/
  | help
  deriving DecidableEq

/-- An option that takes a value. -/
structure Flag where
  long : String
  short : Option Char
  /-- The option may be given more than once. -/
  repeats : Bool
  /-- The value is the path of a file, which is not empty. -/
  isPath : Bool
  deriving DecidableEq

/-- What an argument is on its own. -/
inductive Reading where
  /-- No option. -/
  | operand
  /-- An option with the value that is attached to it, if one is. -/
  | flag (flag : Flag) (value : Option String)
  /-- It asks for help. -/
  | help
  /-- It looks like an option, but there is none of that name. -/
  | unknown

/-- Reads an argument. A single dash is no option. -/
def Reading.of (flags : List Flag) (arg : String) : Reading :=
  match arg.toList with
  | '-' :: '-' :: cs =>
    if cs = "help".toList then .help
    else
      let (name, value) := match Text.cutAt (· == '=') cs with
        | some (name, value) => (name, some (String.ofList value))
        | none => (cs, none)
      match flags.find? fun f => f.long.toList == name with
      | some f => .flag f value
      | none => .unknown
  | '-' :: 'h' :: _ => .help
  | '-' :: c :: cs =>
    match flags.find? fun f => f.short == some c with
    | some f =>
      .flag f (match cs with
        | [] => none
        | '=' :: value => some (String.ofList value)
        | value => some (String.ofList value))
    | none => .unknown
  | _ => .operand

/-- How many arguments that are no options are read. -/
inductive Room where
  /-- At most so many. -/
  | atMost (count : Nat)
  | unlimited
  /-- None: the first of them ends the options, and is left with all that follow. -/
  | leading

/-- Whether there is room for one more after so many. -/
def Room.hasMore : Room → Nat → Bool
  | atMost count, taken => taken < count
  | unlimited, _ => true
  | leading, _ => false

/-- Options with their values, and the other arguments. -/
structure Found where
  values : List (Flag × String) := []
  /-- An option with a value that is still to be checked. -/
  pending : Option (Flag × String) := none
  operands : List String := []

namespace Found

/-- The values of an option, in order. -/
def all (found : Found) (flag : Flag) : List String :=
  found.values.filterMap fun (f, value) => if f = flag then some value else none

/-- The value of an option that is given at most once. -/
def first (found : Found) (flag : Flag) : Option String :=
  (found.all flag).head?

/-- One more option. -/
def addValue (found : Found) (flag : Flag) (value : String) : Except Refusal Found :=
  if (flag.repeats || (found.all flag).isEmpty) && !(flag.isPath && value.isEmpty) then
    .ok { found with values := found.values ++ [(flag, value)] }
  else .error .misuse

/-- Checks what is still to be checked. -/
def settled (found : Found) : Except Refusal Found :=
  match found.pending with
  | some (flag, value) => { found with pending := none }.addValue flag value
  | none => .ok found

/-- One more other argument. -/
def addOperand (room : Room) (found : Found) (arg : String) : Except Refusal Found :=
  if room.hasMore found.operands.length then
    .ok { found with operands := found.operands ++ [arg] }
  else .error .misuse

/-- Sorts arguments, with what was found before them. -/
def scan (flags : List Flag) (room : Room) (found : Found) : List String → Except Refusal Found
  | [] => found.settled
  | "--" :: args => do args.foldlM (addOperand room) (← found.settled)
  | arg :: args =>
    match Reading.of flags arg with
    | .operand =>
      match room with
      | .leading => .ok { found with operands := arg :: args }
      | _ => do scan flags room (← (← found.settled).addOperand room arg) args
    | .flag flag (some value) => do scan flags room (← (← found.settled).addValue flag value) args
    | .flag flag none => do
      let found ← found.settled
      match args with
      | [] => .error .misuse
      | value :: args =>
        match Reading.of flags value with
        | .operand => scan flags room { found with pending := some (flag, value) } args
        | _ => .error .misuse
    | .help => do
      let _ ← found.settled
      .error .help
    | .unknown => .error .misuse

end Found

/-- What is to be done. -/
inductive Command where
  /-- Create an empty data file. -/
  | init
  /-- Print a page of the channels that match a query. -/
  | query (text : String)
  /-- Print the number of channels that match a query. -/
  | count (text : String)
  /-- Print all channels that match a query. -/
  | exportAll (text : String)
  /-- Print a channel. -/
  | read (name : String)
  /-- Create or replace a channel. -/
  | putChannel (name owner : String) (tags properties : List String)
  | removeChannel (name : String)
  /-- Print all tags. -/
  | tags
  /-- Print all properties. -/
  | properties
  /-- Create or replace a tag and its members. -/
  | putTag (name owner : String) (channels : List String)
  /-- Put a tag on a channel. -/
  | addTag (name channel : String)
  /-- Delete a tag, or take it off a channel. -/
  | removeTag (name : String) (channel : Option String)
  /-- Create or replace a property and its members. -/
  | putProperty (name owner : String) (members : List String)
  /-- Delete a property, or take it off a channel. -/
  | removeProperty (name : String) (channel : Option String)
  deriving DecidableEq

namespace Command

def ownerFlag : Flag := ⟨"owner", some 'o', false, false⟩

def tagFlag : Flag := ⟨"tag", some 't', true, false⟩

def propertyFlag : Flag := ⟨"property", some 'p', true, false⟩

def channelFlag : Flag := ⟨"channel", none, false, false⟩

/-- Reads the arguments of a command. -/
abbrev Reader := List String → Except Refusal Command

/-- A command without arguments. -/
def plain (command : Command) : Reader := fun args => do
  let _ ← Found.scan [] (.atMost 0) {} args
  return command

/-- A command with a query, which is empty unless it is given. -/
def withQuery (command : String → Command) : Reader := fun args => do
  let found ← Found.scan [] (.atMost 1) {} args
  return command (found.operands.head?.getD "")

/-- A command with a name. -/
def withName (command : String → Command) : Reader := fun args => do
  let found ← Found.scan [] (.atMost 1) {} args
  match found.operands with
  | name :: _ => return command name
  | [] => .error .misuse

/-- A command with a name, and a channel if it is given. -/
def withChannel (command : String → Option String → Command) : Reader := fun args => do
  let found ← Found.scan [channelFlag] (.atMost 1) {} args
  match found.operands with
  | name :: _ => return command name (found.first channelFlag)
  | [] => .error .misuse

/-- A command with a name, an owner and members. -/
def withMembers (command : String → String → List String → Command) : Reader := fun args => do
  let found ← Found.scan [ownerFlag] .unlimited {} args
  match found.operands, found.first ownerFlag with
  | name :: members, some owner => return command name owner members
  | _, _ => .error .misuse

/-- The command that writes a channel. -/
def readPutChannel : Reader := fun args => do
  let found ← Found.scan [ownerFlag, tagFlag, propertyFlag] (.atMost 1) {} args
  match found.operands, found.first ownerFlag with
  | name :: _, some owner =>
    return .putChannel name owner (found.all tagFlag) (found.all propertyFlag)
  | _, _ => .error .misuse

/-- The command that puts a tag on a channel. -/
def readAddTag : Reader := fun args => do
  let found ← Found.scan [] (.atMost 2) {} args
  match found.operands with
  | name :: channel :: _ => return .addTag name channel
  | _ => .error .misuse

/-- The commands by name. -/
def readers : List (String × Reader) :=
  [("init", plain .init), ("query", withQuery .query), ("count", withQuery .count),
    ("export", withQuery .exportAll), ("show", withName .read), ("channel-put", readPutChannel),
    ("channel-remove", withName .removeChannel), ("tags", plain .tags),
    ("properties", plain .properties), ("tag-put", withMembers .putTag), ("tag-add", readAddTag),
    ("tag-remove", withChannel .removeTag), ("property-put", withMembers .putProperty),
    ("property-remove", withChannel .removeProperty)]

/-- What comes of `help` with some names: it explains the program, a command or itself. -/
def explain : List String → Refusal
  | [] | ["help"] => .help
  | [name] => if (readers.lookup name).isSome then .help else .misuse
  | _ => .misuse

/-- The command of a name with arguments. -/
def parse (name : String) (args : List String) : Except Refusal Command :=
  if name = "help" then .error (explain args)
  else match readers.lookup name with
    | some reader => reader args
    | none => .error .misuse

end Command

/-- A command and the files that it is about. -/
structure Invocation where
  /-- The path of the data file. -/
  data : String
  /-- The path of the configuration file. -/
  config : Option String
  command : Command
  deriving DecidableEq

namespace Invocation

def dataFlag : Flag := ⟨"data", some 'd', false, true⟩

def configFlag : Flag := ⟨"config", some 'c', false, true⟩

/-- The data file, unless another one is named. -/
def defaultData : String := "chanfind.json"

/-- The invocation that arguments stand for. -/
def parse (args : List String) : Except Refusal Invocation := do
  let found ← Found.scan [dataFlag, configFlag] .leading {} args
  match found.operands with
  | [] => .error .misuse
  | name :: args =>
    let command ← Command.parse name args
    -- The option right before the command is checked only now.
    let found ← found.settled
    return { data := (found.first dataFlag).getD defaultData
             config := found.first configFlag, command }

end Invocation

end ChannelDirectory.CommandLine
