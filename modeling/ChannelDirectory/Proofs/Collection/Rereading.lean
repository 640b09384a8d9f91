import ChannelDirectory.Proofs.Collection.Reads
import ChannelDirectory.Proofs.Record.Layout
import ChannelDirectory.Proofs.Record.Printing
import ChannelDirectory.Proofs.Store.Batches

/-!
# Records that are read after they were put

A record that is put is there when it is asked for next, alone or among others, whatever else the
index holds (`Collection.run_get_of_get?`, `Collection.run_findAll_of_get?`). What comes back is its
stored form : a channel is stored as it is, and of a tag or a property only the name and the owner.
If several records are put in one batch they have to have different names, for the last one of a
name replaces the others.

`records_read_back` says so of each type of records, together with what it rests on : decoding
undoes encoding, also by way of a text, and encoding undoes decoding for every document that is laid
out like a record.
-/

namespace ChannelDirectory

open Program

namespace Collection

variable {α : Type} [Entity α] {c : Collection α} {b : Backend}

/-- Records with different names that are put in one batch are all there. -/
theorem get?_after_puts (c : Collection α) (s : Store) {records : List α}
    (distinct : (records.map Entity.name).Nodup) {record : α} (hrecord : record ∈ records) :
    (s.after (records.map c.putOp)).get? c.index (Entity.name record) =
      some (toDocument record) := by
  induction records generalizing s with
  | nil => cases hrecord
  | cons first records ih =>
    obtain ⟨hfirst, hrest⟩ := List.nodup_cons.mp distinct
    rw [List.map_cons, Store.after_cons]
    rcases List.mem_cons.mp hrecord with rfl | hlater
    · rw [Store.get?_after_of_ne]
      · exact (Store.get?_put s _ _ _ _ _).trans (if_pos ⟨rfl, rfl⟩)
      · rintro op hop ⟨-, hid⟩
        obtain ⟨other, hother, rfl⟩ := List.mem_map.mp hop
        exact hfirst (List.mem_map.mpr ⟨other, hother, hid⟩)
    · exact ih _ hrest hlater

theorem run_execute_puts (havail : b.available = true) (c : Collection α) (records : List α) :
    (execute (records.map c.putOp)).run b =
      (.ok (b.store.summary (records.map c.putOp)), b.after (records.map c.putOp)) := by
  rw [run_execute, if_pos (Or.inr havail), if_pos]
  refine Store.isSuccess_summary_of_no_replace _ fun op hop => ?_
  obtain ⟨record, -, rfl⟩ := List.mem_map.mp hop
  rintro ⟨⟩

/-- Putting records stores them, and answers with what is stored. -/
theorem run_putAll (havail : b.available = true) (c : Collection α) (records : List α) :
    (c.putAll records).run b =
      (.ok (records.map Entity.stored), b.after (records.map c.putOp)) := by
  rw [putAll, run_bind, run_execute_puts havail]
  rfl

/-- Putting a record stores it, and answers with what is stored. -/
theorem run_put (havail : b.available = true) (c : Collection α) (record : α) :
    (c.put record).run b = (.ok (Entity.stored record), b.after [c.putOp record]) := by
  rw [put, run_bind]
  rw [show [c.putOp record] = [record].map c.putOp from rfl, run_execute_puts havail]
  rfl

variable [LawfulEntity α]

/-- A record is got from its document, whatever else the index holds. -/
theorem run_get_of_get? (havail : b.available = true) {id : String} {record : α}
    (h : b.store.get? c.index id = some (toDocument record)) :
    (c.get id).run b = (.ok (some (Entity.stored record)), b) := by
  have hreturns : (c.get id).Returns b (some (Entity.stored record)) := by
    rw [get, returns_get_bind, h]
    refine ⟨havail, (returns_bind (readOnly_ofExcept _)).mpr ⟨_, ?_, returns_done.mpr rfl⟩⟩
    rw [returns_ofExcept, toDocument, decode_encode]
  rw [hreturns.run_eq, (c.readOnly_get id).run_snd]

/-- Records are found by their documents, in the order asked, whatever else the index holds. -/
theorem run_findAll_of_get? (havail : b.available = true) {records : List α}
    (h : ∀ record ∈ records,
      b.store.get? c.index (Entity.name record) = some (toDocument record)) :
    (c.findAll (records.map Entity.name)).run b = (.ok (records.map Entity.stored), b) := by
  have hdocs : ((records.map Entity.name).filterMap fun id =>
      (b.store.get? c.index id).map fun doc => (id, doc)) =
        (records.map fun record => (Entity.name record, Entity.stored record)).map
          fun e => (e.1, Entity.encode Json.ofMembers e.2) := by
    rw [List.filterMap_map, List.map_map, ← List.filterMap_eq_map]
    refine List.filterMap_congr fun record hrecord => ?_
    rw [Function.comp_apply, h record hrecord]
    rfl
  have hreturns : (c.findAll (records.map Entity.name)).Returns b (records.map Entity.stored) := by
    rw [findAll]
    split
    · rename_i hempty
      rw [List.isEmpty_iff, List.map_eq_nil_iff] at hempty
      rw [hempty]
      exact returns_done.mpr rfl
    · rw [returns_multiGet_bind, hdocs, returns_ofExcept, decodeAll_map, List.map_map]
      exact ⟨havail, rfl⟩
  rw [hreturns.run_eq, (c.readOnly_findAll _).run_snd]

end Collection

/-- The records of a type survive being stored. -/
structure ReadsBack (α : Type) [Entity α] (fields : List RecordField) : Prop where
  /-- Decoding undoes encoding. -/
  decode_encode : ∀ record : α, Entity.decode (Entity.encode Json.ofMembers record) = .ok record
  /-- Decoding undoes encoding from the text of a document as well. -/
  decode_read : ∀ record : α, ∃ doc,
    Json.read (Entity.encode Json.ofMembers record).pretty = some doc ∧
      Entity.decode doc = .ok record
  /-- The documents of records are those with the fields of the type. -/
  isRecord_iff : ∀ doc, Json.IsRecord fields doc ↔
    ∃ record : α, doc = Entity.encode Json.ofMembers record
  /-- Encoding undoes decoding for a document with the fields of the type. -/
  encode_decode : ∀ doc, Json.IsRecord fields doc →
    ∃ record : α, Entity.decode doc = .ok record ∧ Entity.encode Json.ofMembers record = doc
  /-- A record that is put is there in its stored form. -/
  put : ∀ (c : Collection α) (b : Backend) (record : α), b.available = true →
    ∃ b', (c.put record).run b = (.ok (Entity.stored record), b') ∧
      (c.get (Entity.name record)).run b' = (.ok (some (Entity.stored record)), b') ∧
      (c.findAll [Entity.name record]).run b' = (.ok [Entity.stored record], b')
  /-- Records with different names that are put together are all there in their stored form. -/
  putAll : ∀ (c : Collection α) (b : Backend) (records : List α), b.available = true →
    (records.map Entity.name).Nodup →
      ∃ b', (c.putAll records).run b = (.ok (records.map Entity.stored), b') ∧
        (∀ record ∈ records,
          (c.get (Entity.name record)).run b' = (.ok (some (Entity.stored record)), b')) ∧
        ∀ asked : List α, (∀ record ∈ asked, record ∈ records) →
          (c.findAll (asked.map Entity.name)).run b' = (.ok (asked.map Entity.stored), b')

/-- If the encodings of records are what the layout says, every record is read back. -/
theorem readsBack_of_isRecord_iff {α : Type} [Entity α] [LawfulEntity α]
    {fields : List RecordField} (h : ∀ doc, Json.IsRecord fields doc ↔
      ∃ record : α, doc = Entity.encode Json.ofMembers record)
    (printable : ∀ record : α,
      Json.Printable Json.maxDepth (Entity.encode Json.ofMembers record)) :
    ReadsBack α fields where
  decode_encode := LawfulEntity.decode_encode
  decode_read record :=
    ⟨_, Json.read_pretty (printable record), LawfulEntity.decode_encode record⟩
  isRecord_iff := h
  encode_decode doc hdoc := by
    obtain ⟨record, rfl⟩ := (h doc).mp hdoc
    exact ⟨record, LawfulEntity.decode_encode record, rfl⟩
  put c b record havail := by
    have hdistinct : ([record].map (Entity.name : α → String)).Nodup := List.nodup_singleton _
    have hdoc : ∀ r ∈ [record], (b.after [c.putOp record]).store.get? c.index (Entity.name r) =
        some (toDocument r) := fun r hr => c.get?_after_puts b.store hdistinct hr
    have havail' : (b.after [c.putOp record]).available = true := havail
    exact ⟨_, c.run_put havail record,
      Collection.run_get_of_get? havail' (hdoc record List.mem_cons_self),
      Collection.run_findAll_of_get? havail' hdoc⟩
  putAll c b records havail distinct := by
    have hdocs : ∀ record ∈ records, (b.after (records.map c.putOp)).store.get? c.index
        (Entity.name record) = some (toDocument record) :=
      fun record hrecord => c.get?_after_puts b.store distinct hrecord
    have havail' : (b.after (records.map c.putOp)).available = true := havail
    exact ⟨_, c.run_putAll havail records,
      fun record hrecord => Collection.run_get_of_get? havail' (hdocs record hrecord),
      fun asked hasked => Collection.run_findAll_of_get? havail' fun record hrecord =>
        hdocs record (hasked record hrecord)⟩

/-- Stored documents decode to the records that they were written from, for channels, tags and
properties. A channel is stored as it is, a tag or property with its name and owner only. -/
theorem records_read_back :
    ReadsBack Channel Channel.fields ∧ ReadsBack Tag Tag.fields ∧
      ReadsBack Property Property.fields ∧
      (∀ c : Channel, Entity.stored c = c) ∧
      (∀ t : Tag, Entity.stored t = ⟨t.name, t.owner, []⟩) ∧
      ∀ p : Property, Entity.stored p = ⟨p.name, p.owner, none, []⟩ :=
  ⟨readsBack_of_isRecord_iff Channel.isRecord_iff fun c => c.printable_encode.mono (by decide),
    readsBack_of_isRecord_iff Tag.isRecord_iff fun t => t.printable_encode.mono (by decide),
    readsBack_of_isRecord_iff Property.isRecord_iff fun p => p.printable_encode.mono (by decide),
    fun _ => rfl, fun _ => rfl, fun _ => rfl⟩

end ChannelDirectory
