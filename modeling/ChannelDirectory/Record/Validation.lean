import ChannelDirectory.Record
import ChannelDirectory.Text.Blank

/-!
# Valid names, owners and values

A name is not blank, has at most `maxNameLength` characters, holds no control character
and is trimmed. An owner is not blank. The value of a property on a channel is not empty.
The checks run in this order, and the first one that fails is reported.
-/

namespace ChannelDirectory

/-- What is wrong with a record. -/
inductive ValidationError where
  | controlCharacters (kind : RecordKind) (name : String)
  | notTrimmed (kind : RecordKind) (name : String)
  | emptyName (kind : RecordKind)
  | tooLong (kind : RecordKind) (name : String)
  | emptyOwner (kind : RecordKind) (name : String)
  | emptyPropertyValue (property channel : String)
  deriving DecidableEq, Repr

/-- The greatest number of characters in a name. -/
def maxNameLength : Nat := 255

/-- What the error says to a user. -/
def ValidationError.message : ValidationError → String
  | controlCharacters kind name =>
    "Invalid " ++ kind.word ++ " name '" ++ name ++ "': contains control characters"
  | notTrimmed kind name =>
    "Invalid " ++ kind.word ++ " name '" ++ name ++ "': has leading or trailing whitespace"
  | emptyName kind => "The " ++ kind.word ++ " name cannot be empty"
  | tooLong kind name =>
    "The " ++ kind.word ++ " '" ++ name ++ "' name is too long (max " ++
      toString maxNameLength ++ " characters)"
  | emptyOwner kind name => "The " ++ kind.word ++ " '" ++ name ++ "' must have an owner"
  | emptyPropertyValue property channel =>
    "Property '" ++ property ++ "' on channel '" ++ channel ++ "' must have a non-empty value"

/-- Checks the name of a record. -/
def validateName (kind : RecordKind) (name : String) : Except ValidationError Unit :=
  if Text.isBlankText name then .error (.emptyName kind)
  else if maxNameLength < name.length then .error (.tooLong kind name)
  else if name.toList.any Text.isControl then .error (.controlCharacters kind name)
  else if name ≠ Text.trim name then .error (.notTrimmed kind name)
  else .ok ()

/-- Checks the owner of a record. -/
def validateOwner (kind : RecordKind) (name owner : String) : Except ValidationError Unit :=
  if Text.isBlankText owner then .error (.emptyOwner kind name) else .ok ()

/-- Checks name and owner of a record. -/
def validateNamed (kind : RecordKind) (name owner : String) : Except ValidationError Unit := do
  validateName kind name
  validateOwner kind name owner

/-- Checks the value of a property on a channel, and returns it. -/
def validateValue (property channel : String) (value : Option String) :
    Except ValidationError String :=
  match value with
  | none => .error (.emptyPropertyValue property channel)
  | some value =>
    if value = "" then .error (.emptyPropertyValue property channel) else .ok value

end ChannelDirectory
