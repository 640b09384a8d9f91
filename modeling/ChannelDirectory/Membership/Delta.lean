import ChannelDirectory.KeyMap

/-!
# Changes of membership

The membership of a tag or property is a map from channel names to the references that the
channels carry. A `Delta` lists what has to change for one membership to become another:
references to add, channels to remove, and references to refresh because the channel
carries another one.

`Delta.replace` makes the desired members the only ones, `Delta.merge` leaves all others
as they are, and `Delta.strip` leaves none. `Delta.refreshOthers` adds a rewriting of the
members that a delta does not mention. `Delta.applyTo` carries a delta out on a
membership.
-/

namespace ChannelDirectory

/-- What has to change for one membership to become another. -/
structure Delta (ρ : Type) where
  /-- References for channels that carry none. -/
  added : KeyMap ρ
  /-- Channels that lose their reference. -/
  removed : KeySet
  /-- References for channels that carry another one. -/
  refreshed : KeyMap ρ
  deriving DecidableEq

namespace Delta

variable {ρ : Type} [DecidableEq ρ]

/-- Adds the desired members and brings their references up to date. -/
def merge (current desired : KeyMap ρ) : Delta ρ where
  added := desired.filter fun name _ => !current.contains name
  removed := KeyMap.empty
  refreshed := desired.filter fun name ref =>
    match current.get? name with
    | some existing => existing ≠ ref
    | none => false

/-- Makes the desired members the only ones. -/
def replace (current desired : KeyMap ρ) : Delta ρ :=
  { merge current desired with
    removed := (current.filter fun name _ => !desired.contains name).mapValues fun _ _ => () }

/-- Leaves no member. -/
def strip (current : KeyMap ρ) : Delta ρ where
  added := KeyMap.empty
  removed := current.mapValues fun _ _ => ()
  refreshed := KeyMap.empty

/-- The delta says something about a channel. -/
def mentions (d : Delta ρ) (name : String) : Bool :=
  d.added.contains name || d.refreshed.contains name || d.removed.contains name

/-- Also refreshes one member, unless it is mentioned or up to date. -/
def refreshOther (refresh : ρ → ρ) (d : Delta ρ) (member : String × ρ) : Delta ρ :=
  if d.mentions member.1 || refresh member.2 = member.2 then d
  else { d with refreshed := d.refreshed.insert member.1 (refresh member.2) }

/-- Also refreshes all members that the delta does not mention. -/
def refreshOthers (d : Delta ρ) (current : KeyMap ρ) (refresh : ρ → ρ) : Delta ρ :=
  current.entries.foldl (refreshOther refresh) d

/-- The references that are written. -/
def upserts (d : Delta ρ) : List (String × ρ) :=
  d.added.entries ++ d.refreshed.entries

/-- Nothing has to change. -/
def isEmpty (d : Delta ρ) : Bool :=
  d.added.isEmpty && d.removed.isEmpty && d.refreshed.isEmpty

/-- The membership after the changes. -/
def applyTo (d : Delta ρ) (current : KeyMap ρ) : KeyMap ρ :=
  d.upserts.foldl (fun m e => m.insert e.1 e.2)
    (d.removed.keys.foldl (fun m name => m.erase name) current)

end Delta

end ChannelDirectory
