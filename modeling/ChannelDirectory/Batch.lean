import ChannelDirectory.Store

/-!
# The outcome of a batch

A batch of writes is carried out operation by operation. Its `Summary` counts what became
of the operations and lists those that failed. A delete of a document that was not there
counts as applied.
-/

namespace ChannelDirectory

/-- An operation that could not be carried out. -/
structure Failure where
  index : String
  id : String
  action : Action
  reason : String
  deriving DecidableEq, Repr

/-- What became of a batch. -/
structure Summary where
  created : Nat := 0
  updated : Nat := 0
  deleted : Nat := 0
  notFound : Nat := 0
  failures : List Failure := []
  deriving DecidableEq, Repr

namespace Summary

/-- Counts one more operation. -/
def add (s : Summary) (item : ItemResult) : Summary :=
  match item.status with
  | .created => { s with created := s.created + 1 }
  | .updated => { s with updated := s.updated + 1 }
  | .deleted => { s with deleted := s.deleted + 1 }
  | .notFound => { s with notFound := s.notFound + 1 }
  | .failed reason =>
    { s with failures := s.failures ++ [⟨item.index, item.id, item.action, reason⟩] }

/-- The summary of the results of a batch. -/
def ofResults (results : List ItemResult) : Summary :=
  results.foldl add {}

/-- The number of operations that were carried out. -/
def applied (s : Summary) : Nat :=
  s.created + s.updated + s.deleted + s.notFound

/-- The number of operations. -/
def total (s : Summary) : Nat :=
  s.applied + s.failures.length

/-- Every operation was carried out. -/
def isSuccess (s : Summary) : Bool :=
  s.failures.isEmpty

end Summary

end ChannelDirectory
