import ChannelDirectory.Directory

/-!
# Listing and counting channels

A listing gives one page of the channels that match a query, and a count the number of all
of them. Both use the same predicate. Only a listing looks at the paging of the query, so
a query with a bad page can be counted.
-/

namespace ChannelDirectory

/-- A page of channels with a count: of all matches if the query asks for it, and of the
page otherwise. -/
structure Listing where
  channels : List Channel
  count : Nat
  deriving DecidableEq

namespace Directory

/-- The search that a query asks for, if its page lies within the window. -/
def searchRequest (dir : Directory) (query : Query) : Except Error SearchRequest :=
  match query.page dir.config.querySize with
  | .error e => .error (.query e)
  | .ok page =>
    if dir.config.maxResultWindow < page.reach then
      .error (.windowTooLarge page.reach dir.config.maxResultWindow)
    else
      .ok { predicate := query.predicate, size := page.size, offset := page.offset,
            order := if query.searchAfter.isSome then .byName else .relevance,
            after := query.searchAfter, trackTotal := query.trackTotal }

/-- A page of the channels that match a query, with a count. -/
def search (dir : Directory) (query : Query) : Program Listing := do
  let request ← Program.ofExcept (dir.searchRequest query)
  let page ← Program.request (.search dir.config.channelIndex request)
  let channels ← Program.ofExcept (dir.channels.decodeHits page.hits)
  return ⟨channels, page.total.getD channels.length⟩

/-- A page of the channels that match a query. -/
def list (dir : Directory) (query : Query) : Program (List Channel) := do
  let listing ← dir.search query
  return listing.channels

/-- The number of channels that satisfy a predicate. -/
def count (dir : Directory) (predicate : Predicate) : Program Nat :=
  Program.request (.count dir.config.channelIndex predicate)

/-- A page of the channels that match parameters. -/
def query (dir : Directory) (params : QueryParams) : Program (List Channel) := do
  dir.list (← Program.compile params)

/-- The number of channels that match parameters. -/
def queryCount (dir : Directory) (params : QueryParams) : Program Nat := do
  let query ← Program.compile params
  dir.count query.predicate

/-- A page of the channels that match parameters, with a count. -/
def querySearch (dir : Directory) (params : QueryParams) : Program Listing := do
  dir.search (← Program.compile params)

/-- The number of channels with a tag. -/
def countByTag (dir : Directory) (name : String) : Program Nat :=
  dir.count (.hasTag name)

/-- The number of channels that a query for one property matches, by default with any
value. -/
def countByProperty (dir : Directory) (name : String) (value : Option String) : Program Nat :=
  dir.queryCount (QueryParams.empty.add name (value.getD "*"))

end Directory

end ChannelDirectory
