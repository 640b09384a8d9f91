import ChannelDirectory.Program

/-!
# Collections of records

A `Collection` is the records of one type in one index, each under its name. Reading and
writing go through the backend; a document that is no record is an error.

A whole result set is read page by page, sorted by name: every page starts after the name
of the last record of the page before, until a page is not full. No window limits how far
this goes, but the number of pages is limited by the budget of the caller.
-/

namespace ChannelDirectory

/-- Submits a batch of writes. An empty batch does not reach the backend. -/
def submit (ops : List Operation) : Program Summary :=
  if ops.isEmpty then pure {}
  else do
    let results ← Program.request (.bulk ops)
    return Summary.ofResults results

/-- Submits a batch of writes. Operations that fail are an error. -/
def execute (ops : List Operation) : Program Summary := do
  let summary ← submit ops
  if summary.isSuccess then return summary
  else .fail (.partialFailure summary.applied summary.failures)

/-- The records of one type in one index. -/
structure Collection (α : Type) where
  index : String
  /-- The size of a page when many records are read. -/
  pageSize : Nat

namespace Collection

variable {α : Type} [Entity α]

/-- A collection. The size of its pages is at least one. -/
def ofIndex (index : String) (pageSize : Nat) : Collection α :=
  ⟨index, max pageSize 1⟩

/-- The record that a document stands for. -/
def decode (c : Collection α) (id : String) (doc : Json) : Except Error α :=
  match Entity.decode doc with
  | .ok record => .ok record
  | .error cause => .error (.invalidDocument c.index id cause)

/-- The records that documents stand for, each with the id of its document. -/
def decodeAll (c : Collection α) (docs : List (String × Json)) : Except Error (List α) :=
  docs.mapM fun (id, doc) => c.decode id doc

/-- The records that hits stand for. -/
def decodeHits (c : Collection α) (hits : List Hit) : Except Error (List α) :=
  hits.mapM fun hit => c.decode hit.id hit.source

/-- The write that creates or replaces a record. -/
def putOp (c : Collection α) (record : α) : Operation :=
  .put c.index (Entity.name record) (toDocument record)

/-- The write that replaces a record that is there. -/
def replaceOp (c : Collection α) (record : α) : Operation :=
  .replace c.index (Entity.name record) (toDocument record)

/-- The write that deletes a record. -/
def deleteOp (c : Collection α) (id : String) : Operation :=
  .delete c.index id

/-- The record of a name, if there is one. -/
def get (c : Collection α) (id : String) : Program (Option α) := do
  match ← Program.request (.get c.index id) with
  | none => return none
  | some doc =>
    let record ← Program.ofExcept (c.decode id doc)
    return some record

/-- The record of a name. -/
def require (c : Collection α) (id : String) : Program α := do
  match ← c.get id with
  | none => .fail (.notFound (Entity.kind α) id)
  | some record => return record

/-- There is a record of this name. -/
def contains (c : Collection α) (id : String) : Program Bool := do
  let found ← Program.request (.present c.index [id])
  return !found.isEmpty

/-- Those names that have no record, in the order asked. -/
def missing (c : Collection α) (ids : List String) : Program (List String) :=
  if ids.isEmpty then pure []
  else do
    let found ← Program.request (.present c.index ids)
    return ids.filter fun id => !found.contains id

/-- Those records that exist among some names, in the order asked. -/
def findAll (c : Collection α) (ids : List String) : Program (List α) :=
  if ids.isEmpty then pure []
  else do
    let docs ← Program.request (.multiGet c.index ids)
    Program.ofExcept (c.decodeAll docs)

/-- The request for a page of all records that satisfy a predicate. -/
def pageRequest (c : Collection α) (predicate : Predicate) (after : Option String) :
    SearchRequest :=
  { predicate, size := c.pageSize, order := .byName, after }

/-- Every record after a name that satisfies a predicate, by name. Reads at most `budget`
pages. -/
def findFrom (c : Collection α) (predicate : Predicate) :
    (budget : Nat) → Option String → Program (List α)
  | 0, _ => .exhausted
  | budget + 1, after => do
    let page ← Program.request (.search c.index (c.pageRequest predicate after))
    let records ← Program.ofExcept (c.decodeHits page.hits)
    if records.length < c.pageSize then return records
    else
      let last := records.getLast?.map Entity.name
      let more ← c.findFrom predicate budget last
      return records ++ more

/-- Every record that satisfies a predicate, by name. -/
def findMatching (c : Collection α) (budget : Nat) (predicate : Predicate) : Program (List α) :=
  c.findFrom predicate budget none

/-- Every record, by name. -/
def list (c : Collection α) (budget : Nat) : Program (List α) :=
  c.findMatching budget .matchAll

/-- The number of records. -/
def count (c : Collection α) : Program Nat :=
  Program.request (.count c.index .matchAll)

/-- Creates or replaces a record, and returns it as it is stored. -/
def put (c : Collection α) (record : α) : Program α := do
  let _ ← execute [c.putOp record]
  return Entity.stored record

/-- Creates or replaces records in one batch. -/
def putAll (c : Collection α) (records : List α) : Program (List α) := do
  let _ ← execute (records.map c.putOp)
  return records.map Entity.stored

/-- Deletes a record. Returns whether it was there. -/
def delete (c : Collection α) (id : String) : Program Bool := do
  let summary ← execute [c.deleteOp id]
  return 0 < summary.deleted

end Collection

end ChannelDirectory
