import ChannelDirectory.Proofs.Program.Reads
import ChannelDirectory.Proofs.Store.Contents

/-!
# Reading from a collection

On a store that holds nothing but records of the collection, each way of reading returns
what `Collection.contents` says, provided that the backend answers : `returns_get`,
`returns_require`, `returns_contains`, `returns_missing` and `returns_findAll` are
equivalences, so they also say when a read fails. Asking for no names at all needs no
backend.
-/

namespace ChannelDirectory

namespace Program

variable {β : Type} {b : Backend} {value : β}

/-- A program that starts with a question goes on with the answer of an available backend. -/
theorem returns_request_bind {r : Request} (h : r.isRead = true) {k : r.Answer → Program β}
    {answer : r.Answer} (hanswer : (b.answer r).1 = .ok answer) :
    (request r >>= k).Returns b value ↔ b.available = true ∧ (k answer).Returns b value := by
  rw [returns_bind (readOnly_request h)]
  simp only [returns_request]
  by_cases havail : b.available = true
  · simp [Backend.handle, havail, hanswer]
  · simp [Backend.handle, havail]

theorem returns_get_bind {index id : String} {k : Option Json → Program β} :
    (request (.get index id) >>= k).Returns b value ↔
      b.available = true ∧ (k (b.store.get? index id)).Returns b value :=
  returns_request_bind rfl rfl

theorem returns_multiGet_bind {index : String} {ids : List String}
    {k : List (String × Json) → Program β} :
    (request (.multiGet index ids) >>= k).Returns b value ↔
      b.available = true ∧
        (k (ids.filterMap fun id => (b.store.get? index id).map fun doc => (id, doc))).Returns
          b value :=
  returns_request_bind rfl rfl

theorem returns_present_bind {index : String} {ids : List String} {k : List String → Program β} :
    (request (.present index ids) >>= k).Returns b value ↔
      b.available = true ∧
        (k (ids.filter fun id => (b.store.get? index id).isSome)).Returns b value :=
  returns_request_bind rfl rfl

end Program

namespace Collection

open Program

variable {α : Type}

theorem readOnly_contains (c : Collection α) (id : String) : (c.contains id).ReadOnly :=
  (readOnly_request rfl).bind fun _ => trivial

theorem readOnly_missing (c : Collection α) (ids : List String) : (c.missing ids).ReadOnly := by
  unfold missing
  split
  · trivial
  · exact (readOnly_request rfl).bind fun _ => trivial

variable [Entity α] {c : Collection α} {P : α → Prop} {b : Backend}

theorem readOnly_get (c : Collection α) (id : String) : (c.get id).ReadOnly := by
  refine (readOnly_request rfl).bind fun doc => ?_
  cases doc with
  | none => trivial
  | some doc => exact (readOnly_ofExcept _).bind fun record => trivial

theorem readOnly_require (c : Collection α) (id : String) : (c.require id).ReadOnly := by
  refine (c.readOnly_get id).bind fun found => ?_
  cases found <;> trivial

theorem readOnly_findAll (c : Collection α) (ids : List String) : (c.findAll ids).ReadOnly := by
  unfold findAll
  split
  · trivial
  · exact (readOnly_request rfl).bind fun docs => readOnly_ofExcept _

theorem decode_eq_ok_iff {id : String} {doc : Json} {record : α} :
    c.decode id doc = .ok record ↔ Entity.decode doc = .ok record := by
  unfold decode
  cases hdoc : (Entity.decode doc : Except DecodeError α) with
  | ok record' => simp
  | error cause => simp

/-- A document that does not decode is reported with its place. -/
theorem invalidDocument_of_decode {id : String} {doc : Json} {e : Error}
    (h : c.decode id doc = .error e) : ∃ cause, e = .invalidDocument c.index id cause := by
  rw [decode] at h
  split at h
  · cases h
  · cases h
    exact ⟨_, rfl⟩

/-- What a document decodes to is the record of its id, whatever else the index holds. -/
theorem returns_require_of_decode (havail : b.available = true) {id : String} {doc : Json}
    {record : α} (hdoc : b.store.get? c.index id = some doc)
    (hdecode : Entity.decode doc = .ok record) : (c.require id).Returns b record := by
  have hget : (c.get id).Returns b (some record) := by
    rw [get, returns_get_bind, hdoc]
    refine ⟨havail, (returns_bind (readOnly_ofExcept _)).mpr ⟨record, ?_, returns_done.mpr rfl⟩⟩
    rw [returns_ofExcept, decode, hdecode]
  rw [require, returns_bind (c.readOnly_get id)]
  exact ⟨some record, hget, returns_done.mpr rfl⟩

variable [LawfulEntity α]

/-- A record that is encoded is decoded again. -/
theorem decode_encode (c : Collection α) (id : String) (record : α) :
    c.decode id (Entity.encode Json.ofMembers record) = .ok record := by
  rw [decode, LawfulEntity.decode_encode]

/-- The documents of an index are there exactly where the contents have a record. -/
theorem HoldsOnly.isSome_get? {s : Store} (wf : c.HoldsOnly P s) (id : String) :
    (s.get? c.index id).isSome = (c.contents s).contains id := by
  rw [wf.get?_store, Option.isSome_map, KeyMap.contains]

/-- The record under an id is read from the contents. -/
theorem returns_get (wf : c.HoldsOnly P b.store) {id : String} {found : Option α} :
    (c.get id).Returns b found ↔
      b.available = true ∧ found = (c.contents b.store).get? id := by
  rw [get, returns_get_bind, wf.get?_store]
  cases (c.contents b.store).get? id with
  | none => simp
  | some record =>
    simp only [Option.map_some, returns_bind (readOnly_ofExcept _), returns_ofExcept,
      decode_encode, Except.ok.injEq, exists_eq_left', pure_eq, returns_done]

/-- A record that is required is read exactly if it is there. -/
theorem returns_require (wf : c.HoldsOnly P b.store) {id : String} {record : α} :
    (c.require id).Returns b record ↔
      b.available = true ∧ (c.contents b.store).get? id = some record := by
  rw [require, returns_bind (c.readOnly_get id)]
  simp only [returns_get wf]
  constructor
  · rintro ⟨found, ⟨havail, hfound⟩, h⟩
    cases found with
    | none => exact absurd h returns_fail
    | some r => exact ⟨havail, by rw [← hfound, returns_done.mp h]⟩
  · rintro ⟨havail, hget⟩
    exact ⟨some record, ⟨havail, hget.symm⟩, returns_done.mpr rfl⟩

/-- It is found whether there is a record under an id. -/
theorem returns_contains (wf : c.HoldsOnly P b.store) {id : String} {found : Bool} :
    (c.contains id).Returns b found ↔
      b.available = true ∧ found = (c.contents b.store).contains id := by
  rw [Collection.contains, returns_present_bind, pure_eq, returns_done]
  simp only [wf.isSome_get?]
  cases h : (c.contents b.store).contains id <;> simp [h]

/-- The missing ids are those of which there is no record, in their order. -/
theorem returns_missing (wf : c.HoldsOnly P b.store) {ids absent : List String} :
    (c.missing ids).Returns b absent ↔
      (ids = [] ∨ b.available = true) ∧
        absent = ids.filter fun id => !(c.contents b.store).contains id := by
  unfold missing
  split
  · rename_i hempty
    rw [List.isEmpty_iff] at hempty
    simp [hempty]
  · rename_i hne
    rw [List.isEmpty_iff] at hne
    -- Of the names asked for, those that were not found are those that are not there.
    have hfilter : (ids.filter fun id =>
          !(ids.filter fun id => (c.contents b.store).contains id).contains id) =
        ids.filter fun id => !(c.contents b.store).contains id := by
      refine List.filter_congr fun id hid => ?_
      cases h : (c.contents b.store).contains id <;> simp [List.mem_filter, hid, h]
    rw [returns_present_bind, pure_eq, returns_done]
    simp only [wf.isSome_get?, hfilter, hne, false_or]

theorem decodeAll_map (c : Collection α) (records : List (String × α)) :
    c.decodeAll (records.map fun e => (e.1, Entity.encode Json.ofMembers e.2)) =
      .ok (records.map Prod.snd) := by
  rw [decodeAll]
  induction records with
  | nil => rfl
  | cons e records ih =>
    rw [List.map_cons, List.mapM_cons, ih]
    simp only [decode_encode]
    rfl

/-- The records under some ids are read in the order of these, without the missing ones. -/
theorem returns_findAll (wf : c.HoldsOnly P b.store) {ids : List String} {records : List α} :
    (c.findAll ids).Returns b records ↔
      (ids = [] ∨ b.available = true) ∧
        records = ids.filterMap fun id => (c.contents b.store).get? id := by
  unfold findAll
  split
  · rename_i hempty
    rw [List.isEmpty_iff] at hempty
    simp [hempty]
  · rename_i hne
    rw [List.isEmpty_iff] at hne
    have hdocs : (ids.filterMap fun id =>
          (b.store.get? c.index id).map fun doc => (id, doc)) =
        (ids.filterMap fun id => ((c.contents b.store).get? id).map fun r => (id, r)).map
          fun e => (e.1, Entity.encode Json.ofMembers e.2) := by
      rw [List.map_filterMap]
      refine List.filterMap_congr fun id _ => ?_
      rw [wf.get?_store]
      cases (c.contents b.store).get? id <;> rfl
    have hrecords : (ids.filterMap fun id =>
          ((c.contents b.store).get? id).map fun r => (id, r)).map Prod.snd =
        ids.filterMap fun id => (c.contents b.store).get? id := by
      rw [List.map_filterMap]
      refine List.filterMap_congr fun id _ => ?_
      cases (c.contents b.store).get? id <;> rfl
    rw [returns_multiGet_bind, hdocs, returns_ofExcept, decodeAll_map, hrecords]
    simp only [hne, false_or, Except.ok.injEq]
    exact and_congr_right fun _ => eq_comm

/-- What is found under some names, by name. -/
theorem HoldsOnly.get?_ofList_found {β : Type} {s : Store} (wf : c.HoldsOnly P s)
    (ids : List String) (f : α → β) (key : String) :
    (KeyMap.ofList ((ids.filterMap fun id => (c.contents s).get? id).map
        fun r => (Entity.name r, f r))).get? key =
      if key ∈ ids then ((c.contents s).get? key).map f else none := by
  cases hfound : (KeyMap.ofList ((ids.filterMap fun id => (c.contents s).get? id).map
      fun r => (Entity.name r, f r))).get? key with
  | some value =>
    obtain ⟨r, hr, rfl, rfl⟩ := KeyMap.mem_of_get?_ofList_map hfound
    obtain ⟨id, hid, hget⟩ := List.mem_filterMap.mp hr
    rw [wf.name_eq hget, if_pos hid, hget, Option.map_some]
  | none =>
    split
    · rename_i hkey
      cases hget : (c.contents s).get? key with
      | none => rfl
      | some r =>
        have hr : r ∈ ids.filterMap fun id => (c.contents s).get? id :=
          List.mem_filterMap.mpr ⟨key, hkey, hget⟩
        have hne := KeyMap.get?_ofList_eq_none_iff.mp hfound _ (List.mem_map_of_mem hr)
        exact absurd (wf.name_eq hget) hne
    · rfl

end Collection

end ChannelDirectory
