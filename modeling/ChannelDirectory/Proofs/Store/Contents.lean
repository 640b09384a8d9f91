import ChannelDirectory.Collection
import ChannelDirectory.Proofs.KeyMap
import ChannelDirectory.Proofs.Record.RoundTrip

/-!
# What a store holds

A store keeps JSON, and a collection reads records from it. `Collection.contents` is the
map of these records, and `Collection.HoldsOnly` says that nothing else is in the index :
every document is the JSON of a record with a given property, under its own name. For such
a store the documents and the contents determine each other (`HoldsOnly.get?_store`).

A batch is followed one write at a time. Writes of another index leave the documents
as they are (`Store.documents_after_of_index_ne`), and the writes that a collection makes insert and
erase records (`contents_apply_putOp`, `contents_apply_replaceOp`,
`contents_apply_deleteOp`). `HoldsOnly.after` : a batch that writes only such documents
keeps the collection in shape, whatever it was planned from.
-/

namespace ChannelDirectory

namespace Store

/-- The store after a batch of writes. -/
def after (s : Store) (ops : List Operation) : Store :=
  (s.applyAll ops).2

@[simp]
theorem after_nil (s : Store) : s.after [] = s := rfl

@[simp]
theorem after_cons (s : Store) (op : Operation) (ops : List Operation) :
    s.after (op :: ops) = (s.apply op).2.after ops := rfl

theorem after_append (s : Store) (ops more : List Operation) :
    s.after (ops ++ more) = (s.after ops).after more := by
  induction ops generalizing s with
  | nil => rfl
  | cons op ops ih => exact ih (s.apply op).2

theorem documents_delete_of_ne (s : Store) {index index' : String} (h : index' ≠ index)
    (id : String) : (s.delete index id).documents index' = s.documents index' := by
  unfold delete
  cases s.indices.get? index <;> simp [documents, h]

/-- A write changes the documents of its own index only. -/
theorem documents_apply_of_index_ne (s : Store) {op : Operation} {index : String}
    (h : op.index ≠ index) : (s.apply op).2.documents index = s.documents index := by
  have hne : index ≠ op.index := Ne.symm h
  cases op with
  | put i id doc =>
    exact (documents_put s i index id doc).trans (if_neg hne)
  | replace i id doc =>
    rw [apply]
    split
    · exact (documents_put s i index id doc).trans (if_neg hne)
    · rfl
  | delete i id =>
    rw [apply]
    split
    · exact documents_delete_of_ne s hne id
    · rfl

/-- A batch leaves the indices that it does not write to. -/
theorem documents_after_of_index_ne (s : Store) {ops : List Operation} {index : String}
    (h : ∀ op ∈ ops, op.index ≠ index) : (s.after ops).documents index = s.documents index := by
  induction ops generalizing s with
  | nil => rfl
  | cons op ops ih =>
    rw [after_cons, ih _ fun o ho => h o (List.mem_cons_of_mem _ ho),
      documents_apply_of_index_ne s (h op List.mem_cons_self)]

theorem get?_congr {s s' : Store} {index : String} (h : s'.documents index = s.documents index)
    (id : String) : s'.get? index id = s.get? index id := by
  rw [get?, h, get?]

/-- After a write, a document is the one that was written or the one that was there. -/
theorem get?_apply_cases {s : Store} {op : Operation} {index id : String} {doc : Json}
    (h : (s.apply op).2.get? index id = some doc) :
    (op.index = index ∧ op.id = id ∧ op.doc? = some doc) ∨ s.get? index id = some doc := by
  have put_cases : ∀ i n d, (s.put i n d).get? index id = some doc →
      (i = index ∧ n = id ∧ some d = some doc) ∨ s.get? index id = some doc := by
    intro i n d hput
    rw [get?_put] at hput
    split at hput
    · rename_i heq
      exact Or.inl ⟨heq.1.symm, heq.2.symm, hput⟩
    · exact Or.inr hput
  cases op with
  | put i n d => exact put_cases i n d h
  | replace i n d =>
    rw [apply] at h
    split at h
    · exact put_cases i n d h
    · exact Or.inr h
  | delete i n =>
    rw [apply] at h
    split at h
    · change (s.delete i n).get? index id = some doc at h
      rw [get?_delete] at h
      split at h
      · cases h
      · exact Or.inr h
    · exact Or.inr h

end Store

namespace Collection

variable {α : Type} [Entity α] {c : Collection α} {P : α → Prop} {s s' : Store}

/-- The records of the collection, by the ids of their documents. -/
def contents (c : Collection α) (s : Store) : KeyMap α :=
  (s.documents c.index).filterMap fun _ doc => (Entity.decode doc).toOption

/-- Every document of the collection is the JSON of a record with a property, under the
name of the record. -/
def HoldsOnly (c : Collection α) (P : α → Prop) (s : Store) : Prop :=
  ∀ id doc, s.get? c.index id = some doc →
    ∃ record : α, Entity.name record = id ∧ P record ∧ doc = Entity.encode Json.ofMembers record

/-- Every document that the write brings into the collection is the JSON of a record with a
property, under the name of the record. -/
def WritesOnly (c : Collection α) (P : α → Prop) (op : Operation) : Prop :=
  op.index = c.index → ∀ doc, op.doc? = some doc →
    ∃ record : α, Entity.name record = op.id ∧ P record ∧
      doc = Entity.encode Json.ofMembers record

/-- The contents under an id are the decoded document. -/
theorem get?_contents (c : Collection α) (s : Store) (id : String) :
    (c.contents s).get? id = (s.get? c.index id).bind fun doc => (Entity.decode doc).toOption := by
  simp [contents, Store.get?]

theorem contents_congr (h : s'.documents c.index = s.documents c.index) :
    c.contents s' = c.contents s := by
  rw [contents, h, contents]

theorem holdsOnly_of_documents_eq_empty (h : s.documents c.index = KeyMap.empty) :
    c.HoldsOnly P s := by
  intro id doc hdoc
  simp [Store.get?, h] at hdoc

theorem HoldsOnly.mono (wf : c.HoldsOnly P s) {Q : α → Prop} (h : ∀ record, P record → Q record) :
    c.HoldsOnly Q s := by
  intro id doc hdoc
  obtain ⟨record, hname, hP, rfl⟩ := wf id doc hdoc
  exact ⟨record, hname, h record hP, rfl⟩

theorem HoldsOnly.congr (wf : c.HoldsOnly P s) (h : s'.documents c.index = s.documents c.index) :
    c.HoldsOnly P s' := fun id doc hdoc => wf id doc (by rwa [Store.get?_congr h] at hdoc)

/-- Collections of one index hold the same. -/
theorem holdsOnly_of_index_eq {c' : Collection α} (h : c'.index = c.index) :
    c'.HoldsOnly P s ↔ c.HoldsOnly P s := by
  unfold HoldsOnly
  rw [h]

/-- A write of well-formed documents keeps the collection in shape. -/
theorem HoldsOnly.apply (wf : c.HoldsOnly P s) {op : Operation} (hop : c.WritesOnly P op) :
    c.HoldsOnly P (s.apply op).2 := by
  intro id doc hdoc
  rcases Store.get?_apply_cases hdoc with ⟨hindex, rfl, hwritten⟩ | hold
  · exact hop hindex doc hwritten
  · exact wf id doc hold

/-- A batch of good records keeps a collection good. -/
theorem HoldsOnly.after (wf : c.HoldsOnly P s) {ops : List Operation}
    (hops : ∀ op ∈ ops, c.WritesOnly P op) : c.HoldsOnly P (s.after ops) := by
  induction ops generalizing s with
  | nil => exact wf
  | cons op ops ih =>
    exact ih (wf.apply (hops op List.mem_cons_self)) fun o ho => hops o (List.mem_cons_of_mem _ ho)

theorem writesOnly_of_index_eq {c' : Collection α} {op : Operation} (h : c'.index = c.index) :
    c'.WritesOnly P op ↔ c.WritesOnly P op := by
  unfold WritesOnly
  rw [h]

theorem writesOnly_of_index_ne {op : Operation} (h : op.index ≠ c.index) : c.WritesOnly P op :=
  fun hindex => absurd hindex h

theorem writesOnly_deleteOp (id : String) : c.WritesOnly P (c.deleteOp id) := by
  rintro - doc hdoc
  cases hdoc

theorem contents_delete (c : Collection α) (s : Store) (id : String) :
    c.contents (s.delete c.index id) = (c.contents s).erase id := by
  refine KeyMap.ext_get? fun key => ?_
  rw [get?_contents, Store.get?_delete, KeyMap.get?_erase, get?_contents]
  by_cases h : key = id <;> simp [h]

/-- A deletion takes a record out of the contents. -/
theorem contents_apply_deleteOp (c : Collection α) (s : Store) (id : String) :
    c.contents (s.apply (c.deleteOp id)).2 = (c.contents s).erase id := by
  rw [deleteOp, Store.apply]
  split
  · exact contents_delete c s id
  · rename_i habsent
    -- Deleting what is not there changes nothing, and neither does erasing it.
    refine KeyMap.ext_get? fun key => ?_
    rw [KeyMap.get?_erase]
    split
    · rename_i heq
      rw [heq, get?_contents, Option.not_isSome_iff_eq_none.mp habsent]
      rfl
    · rfl

variable [LawfulEntity α]

theorem writesOnly_putOp {record : α} (h : P (Entity.stored record)) :
    c.WritesOnly P (c.putOp record) := by
  rintro - doc hdoc
  exact ⟨Entity.stored record, LawfulEntity.name_stored record, h, (Option.some.inj hdoc).symm⟩

theorem writesOnly_replaceOp {record : α} (h : P (Entity.stored record)) :
    c.WritesOnly P (c.replaceOp record) := by
  rintro - doc hdoc
  exact ⟨Entity.stored record, LawfulEntity.name_stored record, h, (Option.some.inj hdoc).symm⟩

/-! ## Documents and contents -/

/-- The document under an id is the JSON of the record under it. -/
theorem HoldsOnly.get?_store (wf : c.HoldsOnly P s) (id : String) :
    s.get? c.index id = ((c.contents s).get? id).map (Entity.encode Json.ofMembers) := by
  rw [get?_contents]
  cases hdoc : s.get? c.index id with
  | none => rfl
  | some doc =>
    obtain ⟨record, -, -, rfl⟩ := wf id doc hdoc
    simp [LawfulEntity.decode_encode, Except.toOption]

/-- A record is there exactly if its JSON is the document under the id. -/
theorem HoldsOnly.get?_contents_iff (wf : c.HoldsOnly P s) {id : String} {record : α} :
    (c.contents s).get? id = some record ↔
      s.get? c.index id = some (Entity.encode Json.ofMembers record) := by
  rw [wf.get?_store, Option.map_eq_some_iff]
  constructor
  · intro h
    exact ⟨record, h, rfl⟩
  · rintro ⟨other, hget, he⟩
    rw [hget, encode_inj he]

/-- A stored record is good and stands under its name. -/
theorem HoldsOnly.of_get?_contents (wf : c.HoldsOnly P s) {id : String} {record : α}
    (h : (c.contents s).get? id = some record) : Entity.name record = id ∧ P record := by
  have hdoc := wf.get?_store id
  rw [h] at hdoc
  obtain ⟨other, hname, hP, he⟩ := wf id _ hdoc
  rw [encode_inj he]
  exact ⟨hname, hP⟩

theorem HoldsOnly.name_eq (wf : c.HoldsOnly P s) {id : String} {record : α}
    (h : (c.contents s).get? id = some record) : Entity.name record = id :=
  (wf.of_get?_contents h).1

/-! ## Writes of a collection -/

theorem contents_put (c : Collection α) (s : Store) (id : String) (record : α) :
    c.contents (s.put c.index id (Entity.encode Json.ofMembers record)) =
      (c.contents s).insert id record := by
  refine KeyMap.ext_get? fun key => ?_
  rw [get?_contents, Store.get?_put, KeyMap.get?_insert, get?_contents]
  by_cases h : key = id <;> simp [h, LawfulEntity.decode_encode, Except.toOption]

/-- A put stores a record under its name. -/
theorem contents_apply_putOp (c : Collection α) (s : Store) (record : α) :
    c.contents (s.apply (c.putOp record)).2 =
      (c.contents s).insert (Entity.name record) (Entity.stored record) :=
  contents_put c s _ _

/-- A replacement of a record that is there stores the new one. -/
theorem contents_apply_replaceOp (wf : c.HoldsOnly P s) {record old : α}
    (h : (c.contents s).get? (Entity.name record) = some old) :
    c.contents (s.apply (c.replaceOp record)).2 =
      (c.contents s).insert (Entity.name record) (Entity.stored record) := by
  have hdoc := wf.get?_store (Entity.name record)
  rw [h] at hdoc
  rw [replaceOp, Store.apply, if_pos (by rw [hdoc]; rfl)]
  exact contents_put c s _ _

/-- Putting records one after another inserts them. -/
theorem contents_after_puts (c : Collection α) (s : Store) (records : List α) :
    c.contents (s.after (records.map c.putOp)) =
      records.foldl (fun m r => m.insert (Entity.name r) (Entity.stored r)) (c.contents s) := by
  induction records generalizing s with
  | nil => rfl
  | cons record records ih =>
    rw [List.map_cons, Store.after_cons, ih, contents_apply_putOp, List.foldl_cons]

/-- Of the records of one name that are put, the last one is stored. -/
theorem get?_contents_after_puts (c : Collection α) (s : Store) (records : List α) (id : String) :
    (c.contents (s.after (records.map c.putOp))).get? id =
      ((KeyMap.ofList (records.map fun r => (Entity.name r, Entity.stored r))).get? id).or
        ((c.contents s).get? id) := by
  have hfold := KeyMap.get?_foldl_insert
    (records.map fun r => (Entity.name r, Entity.stored r)) (c.contents s) id
  rw [List.foldl_map, ← KeyMap.get?_ofList] at hfold
  rw [contents_after_puts, hfold]

/-- Records that are put under their own names. -/
theorem get?_contents_after_puts_values (c : Collection α) (s : Store) {records : KeyMap α}
    (named : ∀ name record, records.get? name = some record → Entity.name record = name)
    (id : String) :
    (c.contents (s.after (records.values.map c.putOp))).get? id =
      ((records.get? id).map Entity.stored).or ((c.contents s).get? id) := by
  have hentries : records.values.map (fun r => (Entity.name r, Entity.stored r)) =
      (records.mapValues fun _ r => Entity.stored r).entries := by
    rw [KeyMap.values, KeyMap.mapValues, List.map_map]
    refine List.map_congr_left fun e he => ?_
    rw [Function.comp_apply, named e.1 e.2 (KeyMap.get?_eq_some_iff_mem.mpr he)]
  rw [get?_contents_after_puts, hentries, KeyMap.get?_ofList_entries, KeyMap.get?_mapValues]

end Collection

end ChannelDirectory
