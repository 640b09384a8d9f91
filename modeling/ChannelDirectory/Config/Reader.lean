import ChannelDirectory.Config
import ChannelDirectory.Error
import ChannelDirectory.Text.Blank
import ChannelDirectory.Yaml.Node.Reader

/-!
# Reading a configuration

`Config.read` reads a configuration file, a YAML mapping from the names of settings to
scalars. Settings that are absent keep their defaults and unknown names do not count. A
number is a plain scalar, decimal or with one of the marks `0x`, `0o` and `0b`; a text is any
scalar. A setting of the wrong type or given twice makes the file malformed.
-/

namespace ChannelDirectory

namespace Config

open Yaml (Node Scalar)

/-- The greatest number in a configuration. -/
def maxNumber : Nat := 18446744073709551615

/-- The value of a digit in a base. -/
def digitIn? (base : Nat) (c : Char) : Option Nat :=
  (Text.FormEncoding.hexValue c).bind fun d => if d < base then some d else none

/-- The number that digits in a base stand for. There is at least one digit. -/
def digits? (base : Nat) (cs : List Char) : Option Nat := do
  let ds ← cs.mapM (digitIn? base)
  let n := ds.foldl (fun n d => n * base + d) 0
  if ds.isEmpty || maxNumber < n then none else some n

/-- The number that a plain scalar stands for. Decimal digits after a zero make it a text. -/
def number? (text : List Char) : Option Nat :=
  let cs := match text with
    | '+' :: cs => cs
    | cs => cs
  match cs with
  | '0' :: 'x' :: ds => digits? 16 ds
  | '0' :: 'o' :: ds => digits? 8 ds
  | '0' :: 'b' :: ds => digits? 2 ds
  | ['0'] => some 0
  | '0' :: _ => none
  | cs => digits? 10 cs

/-- The tag of integers. -/
def integerTag : String := "tag:yaml.org,2002:int"

/-- A number may be written as this scalar: a plain one, or a literal one with its tag. -/
def holdsNumber (scalar : Scalar) : Bool :=
  scalar.style == .plain || (scalar.style == .literal && scalar.tag == some integerTag)

/-- The number in a setting. -/
def numberOf? : Node → Option Nat
  | .scalar _ scalar => if holdsNumber scalar then number? scalar.text.toList else none
  | _ => none

/-- The text in a setting or its name. -/
def textOf? : Node → Option String
  | .scalar _ scalar => some scalar.text
  | _ => none

/-- The names of the settings. -/
def settingNames : List String :=
  ["channel_index", "tag_index", "property_index", "query_size", "max_result_window",
    "scroll_page_size", "scroll_ttl_secs"]

/-- Takes one setting into a configuration. -/
def set? (config : Config) (name : String) (value : Node) : Option Config :=
  match name with
  | "channel_index" => (textOf? value).map fun v => { config with channelIndex := v }
  | "tag_index" => (textOf? value).map fun v => { config with tagIndex := v }
  | "property_index" => (textOf? value).map fun v => { config with propertyIndex := v }
  | "query_size" => (numberOf? value).map fun v => { config with querySize := v }
  | "max_result_window" => (numberOf? value).map fun v => { config with maxResultWindow := v }
  | "scroll_page_size" => (numberOf? value).map fun v => { config with scrollPageSize := v }
  | "scroll_ttl_secs" => (numberOf? value).map fun v => { config with scrollLifetime := v }
  | _ => some config

/-- No setting is given twice. -/
def eachOnce (names : List String) : Bool :=
  settingNames.all fun name => names.count name ≤ 1

/-- The settings in a mapping, by their names. -/
def settings? (root : Node) : Option (List (String × Node)) := do
  let entries ← root.entries?
  entries.mapM fun (key, value) => (textOf? key).map fun name => (name, value)

/-- The configuration that settings make. -/
def ofSettings? (settings : List (String × Node)) : Option Config :=
  if eachOnce (settings.map Prod.fst) then
    settings.foldlM (fun config (name, value) => set? config name value) {}
  else none

/-- The configuration in a file. -/
def read (text : String) : Except Error Config :=
  if Text.isBlankText text then .ok {}
  else match ((Node.ofText? text).bind settings?).bind ofSettings? with
    | none => .error .malformedConfig
    | some config => .ok config

end Config

end ChannelDirectory
