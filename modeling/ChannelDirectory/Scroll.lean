import ChannelDirectory.Directory

/-!
# Scrolling through channels

A scroll delivers all channels that matched a predicate when it was opened, page by page.
A page that is shorter than the page size of its cursor is the last one: the cursor is
closed and the page carries none. A page with a document that is no channel is an error,
and the cursor is closed as well.
-/

namespace ChannelDirectory

/-- A page of a scroll, with the cursor that goes on, if there is more. -/
structure ScrollPage where
  cursor : Option CursorId
  channels : List Channel
  deriving DecidableEq

/-- The page is the last one. -/
def ScrollPage.isLast (page : ScrollPage) : Bool :=
  page.cursor.isNone

namespace Directory

/-- The size of a page of a scroll: the one that is asked for, or the configured one, but
at least one. -/
def scrollPageSize (dir : Directory) (asked : Option Nat) : Nat :=
  max (asked.getD dir.config.scrollPageSize) 1

/-- The page that the hits of a cursor make. -/
def finishPage (dir : Directory) (batch : ScrollBatch) : Program ScrollPage :=
  match dir.channels.decodeHits batch.hits with
  | .error e => .call (.closeScroll batch.cursor) fun _ => .fail e
  | .ok channels =>
    if batch.hits.length < batch.pageSize then do
      let _ ← Program.request (.closeScroll batch.cursor)
      return ⟨none, channels⟩
    else return ⟨some batch.cursor, channels⟩

/-- Opens a scroll with a page size and delivers its first page. -/
def openScroll (dir : Directory) (pageSize : Nat) (predicate : Predicate) :
    Program ScrollPage := do
  let batch ← Program.request
    (.openScroll dir.config.channelIndex predicate pageSize dir.config.scrollLifetime)
  dir.finishPage batch

/-- Opens a scroll for parameters. A positive size in them is the page size. -/
def openQueryScroll (dir : Directory) (pageSize : Nat) (params : QueryParams) :
    Program ScrollPage := do
  let query ← Program.compile params
  match query.size with
  | some size =>
    dir.openScroll (if 0 < size then size.toNat else pageSize) query.predicate
  | none => dir.openScroll pageSize query.predicate

/-- Delivers the next page of a scroll. -/
def nextPage (dir : Directory) (cursor : CursorId) : Program ScrollPage := do
  let batch ← Program.request (.continueScroll cursor dir.config.scrollLifetime)
  dir.finishPage batch

/-- The channels of a page and of all pages after it, at most `budget` of them. -/
def drain (dir : Directory) : (budget : Nat) → ScrollPage → Program (List Channel)
  | _, ⟨none, channels⟩ => pure channels
  | 0, ⟨some _, _⟩ => .exhausted
  | budget + 1, ⟨some cursor, channels⟩ => do
    let page ← dir.nextPage cursor
    let more ← dir.drain budget page
    return channels ++ more

/-- All channels that satisfy a predicate, through a scroll. -/
def exportChannels (dir : Directory) (pageSize : Nat) (predicate : Predicate) :
    Program (List Channel) := do
  let page ← dir.openScroll pageSize predicate
  dir.drain dir.pageBudget page

end Directory

end ChannelDirectory
