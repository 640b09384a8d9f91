import ChannelDirectory.Config
import ChannelDirectory.Collection
import ChannelDirectory.Membership.Attribute

/-!
# The directory

A `Directory` is a configuration together with the budget of pages for reading a whole
result set. Its collections are the records of each kind in their index.
-/

namespace ChannelDirectory

/-- A directory of channels, tags and properties. -/
structure Directory where
  config : Config
  /-- How many pages a reading of a whole result set may take. -/
  pageBudget : Nat

/-- A number of pages that always suffices for a store that nobody else writes to: each
full page has at least one document. -/
def Store.pageBudget (s : Store) : Nat :=
  s.documentCount + 2

namespace Directory

/-- The channels. -/
def channels (dir : Directory) : Collection Channel :=
  .ofIndex dir.config.channelIndex dir.config.querySize

/-- The tags. -/
def tags (dir : Directory) : Collection Tag :=
  .ofIndex dir.config.tagIndex dir.config.querySize

/-- The properties. -/
def properties (dir : Directory) : Collection Property :=
  .ofIndex dir.config.propertyIndex dir.config.querySize

/-- The records of an attribute. -/
def records (dir : Directory) (α : Type) {ρ : Type} [Attribute α ρ] : Collection α :=
  .ofIndex (Attribute.index α dir.config) dir.config.querySize

/-- Every channel that satisfies a predicate, by name. -/
def members (dir : Directory) (predicate : Predicate) : Program (List Channel) :=
  dir.channels.findMatching dir.pageBudget predicate

end Directory

end ChannelDirectory
