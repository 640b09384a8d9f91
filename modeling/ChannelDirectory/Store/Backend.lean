import ChannelDirectory.Store.Search

/-!
# The search backend

A `Backend` is a store with what its callers can notice of a search service: it can be
unavailable, it limits how far a page may reach, and it keeps scroll cursors. A cursor
holds the hits of its predicate at the time it was opened, so later writes do not change
what it delivers.

Calls are values of type `Request`, and `Backend.handle` answers them. No time passes
between calls, so a cursor expires exactly if its lifetime is zero; expired cursors are
dropped when another one is opened or continued.

Two limits of the machine are assumed to be out of reach. The patterns of a predicate are small
enough to be compiled, so `search`, `count` and `openScroll` do not refuse a predicate. The
lifetime of a cursor is short enough to be added to the time of a clock, so every lifetime has
an end.
-/

namespace ChannelDirectory

/-- The identity of a scroll cursor: a serial number that a backend has given out, or a
text that came from elsewhere and that no backend knows. -/
inductive CursorId where
  | issued (serial : Nat)
  | foreign (text : String)
  deriving DecidableEq, Repr

/-- How messages write an identity. -/
def CursorId.text : CursorId → String
  | issued serial => "scroll-" ++ toString serial
  | foreign text => text

/-- Why a backend refuses a request. -/
inductive Rejection where
  | windowTooLarge (reach max : Nat)
  | unsortedSearchAfter
  | emptyScrollPage
  deriving DecidableEq, Repr

/-- What the refusal says. -/
def Rejection.message : Rejection → String
  | windowTooLarge reach max =>
    "Result window is too large, from + size must be less than or equal to: [" ++ toString max ++
      "] but was [" ++ toString reach ++
      "]. See the scroll api for a more efficient way to request large data sets."
  | unsortedSearchAfter => "search_after requires an explicit name sort"
  | emptyScrollPage => "scroll page size must be positive"

/-- Why a call to a backend failed. -/
inductive BackendError where
  | unavailable
  | rejected (reason : Rejection)
  | scrollNotFound (cursor : CursorId)
  deriving DecidableEq, Repr

/-- What the error says to a user. -/
def BackendError.message : BackendError → String
  | unavailable => "Search backend unavailable: connection refused"
  | rejected reason => "Search backend rejected the request: " ++ reason.message
  | scrollNotFound cursor => "No search context found for scroll id '" ++ cursor.text ++ "'"

/-- Hits that a cursor delivers. -/
structure ScrollBatch where
  cursor : CursorId
  hits : List Hit
  /-- The page size that the cursor was opened with. -/
  pageSize : Nat
  deriving DecidableEq

/-- A call to a backend. -/
inductive Request where
  /-- One document. -/
  | get (index id : String)
  /-- Those documents that exist among some ids, in the order asked. -/
  | multiGet (index : String) (ids : List String)
  /-- Those ids that exist among some, in the order asked. -/
  | present (index : String) (ids : List String)
  /-- A page of hits. -/
  | search (index : String) (request : SearchRequest)
  /-- The number of hits. -/
  | count (index : String) (predicate : Predicate)
  /-- A batch of writes. -/
  | bulk (ops : List Operation)
  /-- A new cursor and its first hits. -/
  | openScroll (index : String) (predicate : Predicate) (pageSize lifetime : Nat)
  /-- The next hits of a cursor. -/
  | continueScroll (cursor : CursorId) (lifetime : Nat)
  /-- Drop a cursor. -/
  | closeScroll (cursor : CursorId)

/-- What a call answers if it succeeds. -/
abbrev Request.Answer : Request → Type
  | .get .. => Option Json
  | .multiGet .. => List (String × Json)
  | .present .. => List String
  | .search .. => SearchResult
  | .count .. => Nat
  | .bulk .. => List ItemResult
  | .openScroll .. => ScrollBatch
  | .continueScroll .. => ScrollBatch
  | .closeScroll .. => Unit

/-- A scroll cursor that a backend keeps. -/
structure Cursor where
  serial : Nat
  /-- The hits that are still to be delivered. -/
  remaining : List Hit
  pageSize : Nat
  lifetime : Nat
  deriving DecidableEq

/-- The cursor will have expired by the next call that looks. -/
def Cursor.expired (c : Cursor) : Bool :=
  c.lifetime == 0

/-- A store behind a search service. -/
structure Backend where
  store : Store
  /-- How far a page of a search may reach. -/
  window : Nat := 10000
  available : Bool := true
  cursors : List Cursor := []
  /-- The serial number of the next cursor. -/
  nextSerial : Nat := 0
  deriving DecidableEq

namespace Backend

/-- The backend without the cursors that have expired. -/
def dropExpired (b : Backend) : Backend :=
  { b with cursors := b.cursors.filter fun c => !c.expired }

/-- The cursor of an identity. -/
def cursor? (b : Backend) : CursorId → Option Cursor
  | .issued serial => b.cursors.find? fun c => c.serial == serial
  | .foreign _ => none

/-- The reason to refuse a search, if there is one. -/
def rejection? (b : Backend) (request : SearchRequest) : Option Rejection :=
  let reach := addCounts request.offset request.size
  if b.window < reach then some (.windowTooLarge reach b.window)
  else if request.after.isSome && request.order ≠ .byName then some .unsortedSearchAfter
  else none

/-- Opens a cursor and delivers its first page. The lifetime is assumed to be one that a clock
can measure. -/
def openScroll (b : Backend) (index : String) (predicate : Predicate) (pageSize lifetime : Nat) :
    Except BackendError ScrollBatch × Backend :=
  if pageSize = 0 then (.error (.rejected .emptyScrollPage), b)
  else
    let b := b.dropExpired
    let hits := b.store.matching index predicate
    let cursor : Cursor := ⟨b.nextSerial, hits.drop pageSize, pageSize, lifetime⟩
    (.ok ⟨.issued b.nextSerial, hits.take pageSize, pageSize⟩,
      { b with cursors := b.cursors ++ [cursor], nextSerial := b.nextSerial + 1 })

/-- Delivers the next page of a cursor and renews its lifetime, with the same assumption on it. -/
def continueScroll (b : Backend) (id : CursorId) (lifetime : Nat) :
    Except BackendError ScrollBatch × Backend :=
  let b := b.dropExpired
  match b.cursor? id with
  | none => (.error (.scrollNotFound id), b)
  | some cursor =>
    let cursor' : Cursor :=
      { cursor with remaining := cursor.remaining.drop cursor.pageSize, lifetime := lifetime }
    (.ok ⟨id, cursor.remaining.take cursor.pageSize, cursor.pageSize⟩,
      { b with cursors := b.cursors.map fun c => if c.serial = cursor.serial then cursor' else c })

/-- Drops a cursor. -/
def closeScroll (b : Backend) (id : CursorId) : Except BackendError Unit × Backend :=
  match b.cursor? id with
  | none => (.error (.scrollNotFound id), b)
  | some cursor =>
    (.ok (), { b with cursors := b.cursors.filter fun c => c.serial ≠ cursor.serial })

/-- Carries out a batch of writes. -/
def bulk (b : Backend) (ops : List Operation) : List ItemResult × Backend :=
  let (results, store) := b.store.applyAll ops
  (results, { b with store })

/-- Answers a call while the backend is available. -/
def answer (b : Backend) : (request : Request) → Except BackendError request.Answer × Backend
  | .get index id => (.ok (b.store.get? index id), b)
  | .multiGet index ids =>
    (.ok (ids.filterMap fun id => (b.store.get? index id).map fun doc => (id, doc)), b)
  | .present index ids => (.ok (ids.filter fun id => (b.store.get? index id).isSome), b)
  | .search index request =>
    match b.rejection? request with
    | some reason => (.error (.rejected reason), b)
    | none => (.ok (b.store.search index request), b)
  | .count index predicate => (.ok (b.store.matching index predicate).length, b)
  | .bulk ops =>
    let (results, b) := b.bulk ops
    (.ok results, b)
  | .openScroll index predicate pageSize lifetime => b.openScroll index predicate pageSize lifetime
  | .continueScroll cursor lifetime => b.continueScroll cursor lifetime
  | .closeScroll cursor => b.closeScroll cursor

/-- Answers a call. An unavailable backend refuses every call and does not change. -/
def handle (b : Backend) (request : Request) : Except BackendError request.Answer × Backend :=
  if b.available then b.answer request else (.error .unavailable, b)

end Backend

end ChannelDirectory
