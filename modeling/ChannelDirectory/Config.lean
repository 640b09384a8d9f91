/-!
# Configuration

`Config` says which index holds which records and how large pages are.
-/

namespace ChannelDirectory

/-- The configuration of a directory. -/
structure Config where
  /-- The index of the channel documents. -/
  channelIndex : String := "channelfinder"
  /-- The index of the tag records. -/
  tagIndex : String := "cf_tags"
  /-- The index of the property records. -/
  propertyIndex : String := "cf_properties"
  /-- The size of a page of a listing that asks for none. -/
  querySize : Nat := 10000
  /-- The furthest position that a page of a listing may reach. -/
  maxResultWindow : Nat := 10000
  /-- The size of a page of a scroll. -/
  scrollPageSize : Nat := 100
  /-- How long a scroll cursor lives between two pages, in seconds. -/
  scrollLifetime : Nat := 1800
  deriving DecidableEq, Repr

end ChannelDirectory
