import ChannelDirectory.Json.SameValue

/-!
# The document store

A `Store` holds indices by name, and an index holds documents by id. Writes come as
`Operation`s in batches. Every operation of a batch is carried out on its own, in order:
putting creates or replaces a document, replacing asks for a document that is there, and
deleting what is not there does no harm. Each reports its `ItemStatus`.
-/

namespace ChannelDirectory

/-- Documents by id. -/
abbrev Documents := KeyMap Json

/-- Indices by name. An index stays when its last document is deleted. -/
structure Store where
  indices : KeyMap Documents
  deriving DecidableEq

/-- The kinds of writes. -/
inductive Action where
  | put
  | replace
  | delete
  deriving DecidableEq, Repr

/-- The name of a kind of writes. -/
def Action.word : Action → String
  | put => "index"
  | replace => "update"
  | delete => "delete"

/-- A write of one document. -/
inductive Operation where
  /-- Creates or replaces a document. -/
  | put (index id : String) (doc : Json)
  /-- Replaces a document that is there. -/
  | replace (index id : String) (doc : Json)
  /-- Deletes a document. -/
  | delete (index id : String)
  deriving DecidableEq

namespace Operation

/-- The index that is written to. -/
def index : Operation → String
  | put index _ _ | replace index _ _ | delete index _ => index

/-- The id of the document that is written. -/
def id : Operation → String
  | put _ id _ | replace _ id _ | delete _ id => id

/-- The kind of the write. -/
def action : Operation → Action
  | put .. => .put
  | replace .. => .replace
  | delete .. => .delete

/-- The document that is written. -/
def doc? : Operation → Option Json
  | put _ _ doc | replace _ _ doc => some doc
  | delete .. => none

end Operation

/-- What became of one operation of a batch. -/
inductive ItemStatus where
  | created
  | updated
  | deleted
  /-- A document to delete was not there. -/
  | notFound
  | failed (reason : String)
  deriving DecidableEq, Repr

/-- An operation of a batch and what became of it. -/
structure ItemResult where
  index : String
  id : String
  action : Action
  status : ItemStatus
  deriving DecidableEq, Repr

namespace Store

/-- The store without indices. -/
def empty : Store := ⟨KeyMap.empty⟩

instance : Inhabited Store := ⟨empty⟩

/-- The documents of an index; one that does not exist has none. -/
def documents (s : Store) (index : String) : Documents :=
  (s.indices.get? index).getD KeyMap.empty

/-- A document. -/
def get? (s : Store) (index id : String) : Option Json :=
  (s.documents index).get? id

/-- Creates or replaces a document. The index is created if need be. -/
def put (s : Store) (index id : String) (doc : Json) : Store :=
  ⟨s.indices.insert index ((s.documents index).insert id doc)⟩

/-- Deletes a document. No index is created or removed. -/
def delete (s : Store) (index id : String) : Store :=
  match s.indices.get? index with
  | some docs => ⟨s.indices.insert index (docs.erase id)⟩
  | none => s

/-- Why a document that is not there cannot be replaced. -/
def missingReason (id : String) : String :=
  "document_missing_exception: [" ++ id ++ "]: document missing"

/-- Carries out one operation. -/
def apply (s : Store) : Operation → ItemStatus × Store
  | .put index id doc =>
    (if (s.get? index id).isSome then .updated else .created, s.put index id doc)
  | .replace index id doc =>
    if (s.get? index id).isSome then (.updated, s.put index id doc)
    else (.failed (missingReason id), s)
  | .delete index id =>
    if (s.get? index id).isSome then (.deleted, s.delete index id) else (.notFound, s)

/-- Carries out the operations of a batch in order. -/
def applyAll (s : Store) : List Operation → List ItemResult × Store
  | [] => ([], s)
  | op :: ops =>
    let (status, s) := s.apply op
    let (results, s) := s.applyAll ops
    (⟨op.index, op.id, op.action, status⟩ :: results, s)

/-- The number of documents in all indices. -/
def documentCount (s : Store) : Nat :=
  s.indices.values.foldr (fun docs n => docs.size + n) 0

theorem documents_put (s : Store) (index index' id : String) (doc : Json) :
    (s.put index id doc).documents index' =
      if index' = index then (s.documents index).insert id doc else s.documents index' := by
  by_cases h : index' = index <;> simp [documents, put, h]

/-- A put changes one document. -/
theorem get?_put (s : Store) (index index' id id' : String) (doc : Json) :
    (s.put index id doc).get? index' id' =
      if index' = index ∧ id' = id then some doc else s.get? index' id' := by
  by_cases h : index' = index
  · subst h
    by_cases h' : id' = id <;> simp [get?, documents_put, h']
  · simp [get?, documents_put, h]

/-- A deletion takes one document away. -/
theorem get?_delete (s : Store) (index index' id id' : String) :
    (s.delete index id).get? index' id' =
      if index' = index ∧ id' = id then none else s.get? index' id' := by
  unfold delete
  cases hi : s.indices.get? index with
  | none =>
    by_cases h : index' = index
    · subst h
      by_cases h' : id' = id <;> simp [get?, documents, hi]
    · simp [h]
  | some docs =>
    by_cases h : index' = index
    · subst h
      by_cases h' : id' = id <;> simp [get?, documents, hi, h']
    · simp [get?, documents, h]

/-- Documents that are new or have another value, and ids that are gone, index by index. -/
structure Changes where
  changed : KeyMap Documents
  removed : KeyMap (List String)

/-- What changed from one store to another. A document that was put again with no other
change than in the signs of zeros has the value that it had. -/
def changesFrom (before after : Store) : Changes where
  changed :=
    (after.indices.mapValues fun index docs =>
      docs.filter fun id doc => !(before.get? index id).any doc.sameValue).filter
        fun _ docs => !docs.isEmpty
  removed :=
    (before.indices.mapValues fun index docs =>
      docs.keys.filter fun id => (after.get? index id).isNone).filter fun _ ids => !ids.isEmpty

end Store

end ChannelDirectory
