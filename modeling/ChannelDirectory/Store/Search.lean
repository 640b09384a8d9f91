import ChannelDirectory.Store
import ChannelDirectory.Query.Evaluate
import ChannelDirectory.Query.Compile

/-!
# Searching an index

`Store.matching` lists the documents of an index that satisfy a predicate, in the order of
their names; documents with equal names keep the order of their ids. The name of a
document is the text in its member `name`, or its id if there is none.

A `SearchRequest` asks for a page of these hits, optionally only of those after a given
name.

Patterns are matched as they are, however long they are. An engine that compiles them to
regular expressions of a bounded size refuses those that exceed it; that bound is assumed to
be out of reach, so no search fails for its predicate.
-/

namespace ChannelDirectory

/-- A document that matched. -/
structure Hit where
  id : String
  source : Json
  deriving DecidableEq

/-- The name by which a hit is sorted. -/
def Hit.sortName (hit : Hit) : String :=
  ((hit.source.get? "name").bind Json.string?).getD hit.id

/-- How the hits of a search are sorted. All hits are equally relevant, so both orders are
the same, but only an order by name may be resumed after a name. -/
inductive SortOrder where
  | relevance
  | byName
  deriving DecidableEq, Repr

/-- A search of one index. -/
structure SearchRequest where
  predicate : Predicate
  size : Nat
  offset : Nat := 0
  order : SortOrder := .relevance
  /-- Only hits after this name. -/
  after : Option String := none
  /-- Ask for the number of all hits. -/
  trackTotal : Bool := false

/-- A page of hits, with the number of all hits if it was asked for. -/
structure SearchResult where
  hits : List Hit
  total : Option Nat
  deriving DecidableEq

namespace Store

/-- The hits of a predicate in an index, by name. Every predicate is assumed to be within the
bounds of the engine that matches it. -/
def matching (s : Store) (index : String) (predicate : Predicate) : List Hit :=
  let docs := (s.documents index).filter fun _ doc => predicate.holds doc
  (docs.entries.map fun (id, doc) => Hit.mk id doc).mergeSort fun a b =>
    !decide (b.sortName < a.sortName)

/-- The page that a search asks for. The total does not depend on where the page starts. -/
def search (s : Store) (index : String) (request : SearchRequest) : SearchResult :=
  let all := s.matching index request.predicate
  let hits := match request.after with
    | none => all
    | some name => all.filter fun hit => decide (name < hit.sortName)
  { hits := (hits.drop request.offset).take request.size
    total := if request.trackTotal then some all.length else none }

end Store

end ChannelDirectory
