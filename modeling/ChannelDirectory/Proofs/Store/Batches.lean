import ChannelDirectory.Proofs.Program.Writes

/-!
# What becomes of a batch

Puts and deletes never fail, and a replacement fails exactly if its document is not there
when its turn comes. In the batches of a directory an index in which documents are replaced
is not written in any other way (`ReplacesApart`), and replacing documents does not change
which of them are there. So the failures of such a batch can be read off the store before
it (`Store.failures_summary`), and without them it does the same (`Store.after_filter`).

A store is determined by the documents of its indices and by which indices it has
(`Store.ext_documents`); the latter changes with puts only (`Store.contains_after`).
-/

namespace ChannelDirectory

/-! ## Summaries -/

/-- The failure that a result reports, if it does. -/
def ItemResult.failure? (item : ItemResult) : Option Failure :=
  match item.status with
  | .failed reason => some ⟨item.index, item.id, item.action, reason⟩
  | _ => none

namespace Summary

theorem failures_add (s : Summary) (item : ItemResult) :
    (s.add item).failures = s.failures ++ item.failure?.toList := by
  rw [add, ItemResult.failure?]
  cases item.status <;> simp

theorem total_add (s : Summary) (item : ItemResult) : (s.add item).total = s.total + 1 := by
  rw [add]
  cases item.status <;> simp only [total, applied, List.length_append, List.length_singleton] <;>
    omega

theorem failures_foldl_add (results : List ItemResult) (s : Summary) :
    (results.foldl add s).failures = s.failures ++ results.filterMap ItemResult.failure? := by
  induction results generalizing s with
  | nil => simp
  | cons item results ih =>
    rw [List.foldl_cons, ih, failures_add, List.append_assoc, List.filterMap_cons]
    cases item.failure? <;> rfl

theorem total_foldl_add (results : List ItemResult) (s : Summary) :
    (results.foldl add s).total = s.total + results.length := by
  induction results generalizing s with
  | nil => rfl
  | cons item results ih =>
    rw [List.foldl_cons, ih, total_add, List.length_cons]
    omega

theorem failures_ofResults (results : List ItemResult) :
    (ofResults results).failures = results.filterMap ItemResult.failure? :=
  failures_foldl_add results {}

theorem total_ofResults (results : List ItemResult) :
    (ofResults results).total = results.length := by
  rw [ofResults, total_foldl_add]
  exact Nat.zero_add _

end Summary

/-- An index in which documents are replaced is not written in any other way. -/
def ReplacesApart (ops : List Operation) : Prop :=
  ∀ op ∈ ops, ∀ op' ∈ ops, op'.action = .replace → op.action = .replace ∨ op.index ≠ op'.index

theorem ReplacesApart.tail {op : Operation} {ops : List Operation}
    (h : ReplacesApart (op :: ops)) : ReplacesApart ops := fun o ho o' ho' =>
  h o (List.mem_cons_of_mem _ ho) o' (List.mem_cons_of_mem _ ho')

theorem replacesApart_of_no_replace {ops : List Operation} (h : ∀ op ∈ ops, op.action ≠ .replace) :
    ReplacesApart ops := fun _ _ op' hop' haction => absurd haction (h op' hop')

/-- The failure of a replacement whose document is not there. -/
def Operation.missing (op : Operation) : Failure :=
  ⟨op.index, op.id, .replace, Store.missingReason op.id⟩

namespace Store

/-- The write is to replace a document that is not there. -/
def lacks (s : Store) (op : Operation) : Bool :=
  op.action = .replace ∧ s.get? op.index op.id = none

/-- An operation lacks nothing unless it replaces a document that is not there. -/
theorem lacks_eq_false_iff {s : Store} {op : Operation} :
    s.lacks op = false ↔ (op.action = .replace → ∃ doc, s.get? op.index op.id = some doc) := by
  rw [lacks, decide_eq_false_iff_not, not_and, ← Option.ne_none_iff_exists']

/-- Whether a document is there is not changed by replacements, nor by writes of other
indices. -/
theorem get?_apply_eq_none_iff (s : Store) {op : Operation} {index : String}
    (h : op.action = .replace ∨ op.index ≠ index) (id : String) :
    (s.apply op).2.get? index id = none ↔ s.get? index id = none := by
  by_cases hindex : op.index = index
  · cases op with
    | put | delete => exact absurd hindex (h.resolve_left (by rintro ⟨⟩))
    | replace i n d =>
      rw [apply]
      split
      · rename_i hthere
        change (s.put i n d).get? index id = none ↔ _
        rw [get?_put]
        split
        · rename_i hsame
          obtain ⟨doc, hdoc⟩ := Option.isSome_iff_exists.mp hthere
          simp [hsame, hdoc]
        · rfl
      · rfl
  · rw [get?_congr (documents_apply_of_index_ne s hindex)]

/-- Other operations do not change what a replacement lacks. -/
theorem lacks_apply (s : Store) {op op' : Operation}
    (h : op'.action = .replace → op.action = .replace ∨ op.index ≠ op'.index) :
    (s.apply op).2.lacks op' = s.lacks op' := by
  rw [lacks, lacks, decide_eq_decide]
  exact and_congr_right fun haction => get?_apply_eq_none_iff s (h haction) op'.id

/-- The store is not changed by a replacement that fails. -/
theorem apply_of_lacks {s : Store} {op : Operation} (h : s.lacks op = true) :
    s.apply op = (.failed (missingReason op.id), s) := by
  obtain ⟨haction, hnone⟩ := of_decide_eq_true h
  cases op with
  | put | delete => cases haction
  | replace index id doc =>
    change s.get? index id = none at hnone
    rw [apply, hnone]
    rfl

/-- An operation is reported to fail exactly if it lacks its document. -/
theorem failure?_apply (s : Store) (op : Operation) :
    (ItemResult.mk op.index op.id op.action (s.apply op).1).failure? =
      if s.lacks op then some op.missing else none := by
  split
  · rename_i h
    rw [apply_of_lacks h, ItemResult.failure?, Operation.missing, (of_decide_eq_true h).1]
  · rename_i h
    have hthere := lacks_eq_false_iff.mp (Bool.not_eq_true _ ▸ h)
    cases op with
    | put index id doc => rw [apply]; cases (s.get? index id).isSome <;> rfl
    | delete index id => rw [apply]; cases (s.get? index id).isSome <;> rfl
    | replace index id doc =>
      obtain ⟨doc', hdoc⟩ := hthere rfl
      change s.get? index id = some doc' at hdoc
      rw [apply, hdoc]
      rfl

theorem results_cons (s : Store) (op : Operation) (ops : List Operation) :
    (s.applyAll (op :: ops)).1 =
      ⟨op.index, op.id, op.action, (s.apply op).1⟩ :: ((s.apply op).2.applyAll ops).1 := rfl

theorem length_applyAll (s : Store) (ops : List Operation) :
    (s.applyAll ops).1.length = ops.length := by
  induction ops generalizing s with
  | nil => rfl
  | cons op ops ih => exact congrArg (· + 1) (ih (s.apply op).2)

theorem total_summary (s : Store) (ops : List Operation) : (s.summary ops).total = ops.length := by
  rw [summary, Summary.total_ofResults, length_applyAll]

/-- The failures of a batch are its replacements of documents that are not there. -/
theorem failures_summary (s : Store) {ops : List Operation} (h : ReplacesApart ops) :
    (s.summary ops).failures = (ops.filter s.lacks).map Operation.missing := by
  rw [summary, Summary.failures_ofResults]
  induction ops generalizing s with
  | nil => rfl
  | cons op ops ih =>
    have hlater : ops.filter (s.apply op).2.lacks = ops.filter s.lacks :=
      List.filter_congr fun op' hop' => lacks_apply s
        (h op List.mem_cons_self op' (List.mem_cons_of_mem _ hop'))
    rw [results_cons, List.filterMap_cons, failure?_apply, ih _ h.tail, hlater, List.filter_cons]
    by_cases hlacks : s.lacks op = true
    · rw [if_pos hlacks, if_pos hlacks, List.map_cons]
    · rw [if_neg hlacks, if_neg hlacks]

/-- Without the replacements that fail a batch does the same. -/
theorem after_filter (s : Store) {ops : List Operation} (h : ReplacesApart ops) :
    s.after (ops.filter fun op => !s.lacks op) = s.after ops := by
  induction ops generalizing s with
  | nil => rfl
  | cons op ops ih =>
    have hlater : ops.filter (fun o => !(s.apply op).2.lacks o) = ops.filter fun o => !s.lacks o :=
      List.filter_congr fun op' hop' => congrArg (!·) (lacks_apply s
        (h op List.mem_cons_self op' (List.mem_cons_of_mem _ hop')))
    have hrest := ih (s.apply op).2 h.tail
    rw [hlater] at hrest
    rw [List.filter_cons, after_cons, ← hrest]
    by_cases hlacks : s.lacks op = true
    · rw [if_neg (by simp [hlacks]), apply_of_lacks hlacks]
    · rw [if_pos (by simp [hlacks]), after_cons]

/-- A batch that only replaces in the indices in which it replaces succeeds exactly if no operation
lacks its document at the start. -/
theorem isSuccess_summary_iff (s : Store) {ops : List Operation} (h : ReplacesApart ops) :
    (s.summary ops).isSuccess = true ↔ ∀ op ∈ ops, s.lacks op = false := by
  rw [Summary.isSuccess, failures_summary s h, List.isEmpty_iff, List.map_eq_nil_iff,
    List.filter_eq_nil_iff]
  simp only [Bool.not_eq_true]

/-- Puts and deletes are always carried out. -/
theorem isSuccess_summary_of_no_replace (s : Store) {ops : List Operation}
    (h : ∀ op ∈ ops, op.action ≠ .replace) : (s.summary ops).isSuccess = true :=
  (isSuccess_summary_iff s (replacesApart_of_no_replace h)).mpr fun op hop =>
    lacks_eq_false_iff.mpr fun haction => absurd haction (h op hop)

/-! ## Documents and indices -/

/-- A write of another document is not seen. -/
theorem get?_apply_of_ne (s : Store) {op : Operation} {index id : String}
    (h : ¬(op.index = index ∧ op.id = id)) : (s.apply op).2.get? index id = s.get? index id := by
  have hne : ¬(index = op.index ∧ id = op.id) := fun hsame => h ⟨hsame.1.symm, hsame.2.symm⟩
  cases op with
  | put i n d => exact (get?_put s i index n id d).trans (if_neg hne)
  | replace i n d =>
    rw [apply]
    split
    · exact (get?_put s i index n id d).trans (if_neg hne)
    · rfl
  | delete i n =>
    rw [apply]
    split
    · exact (get?_delete s i index n id).trans (if_neg hne)
    · rfl

/-- What a write does to a document depends on that document only. -/
theorem get?_apply_congr {s s' : Store} {index id : String}
    (h : s.get? index id = s'.get? index id) (op : Operation) :
    (s.apply op).2.get? index id = (s'.apply op).2.get? index id := by
  by_cases hop : op.index = index ∧ op.id = id
  · obtain ⟨rfl, rfl⟩ := hop
    cases op with
    | put i n d =>
      change (s.put i n d).get? i n = (s'.put i n d).get? i n
      rw [get?_put, get?_put, if_pos ⟨rfl, rfl⟩, if_pos ⟨rfl, rfl⟩]
    | replace i n d =>
      change s.get? i n = s'.get? i n at h
      change (s.apply (.replace i n d)).2.get? i n = (s'.apply (.replace i n d)).2.get? i n
      rw [apply, apply, h]
      split
      · change (s.put i n d).get? i n = (s'.put i n d).get? i n
        rw [get?_put, get?_put, if_pos ⟨rfl, rfl⟩, if_pos ⟨rfl, rfl⟩]
      · exact h
    | delete i n =>
      change s.get? i n = s'.get? i n at h
      change (s.apply (.delete i n)).2.get? i n = (s'.apply (.delete i n)).2.get? i n
      rw [apply, apply, h]
      split
      · change (s.delete i n).get? i n = (s'.delete i n).get? i n
        rw [get?_delete, get?_delete, if_pos ⟨rfl, rfl⟩, if_pos ⟨rfl, rfl⟩]
      · exact h
  · rw [get?_apply_of_ne s hop, get?_apply_of_ne s' hop, h]

/-- A batch leaves the documents that it does not address. -/
theorem get?_after_of_ne (s : Store) {ops : List Operation} {index id : String}
    (h : ∀ op ∈ ops, ¬(op.index = index ∧ op.id = id)) :
    (s.after ops).get? index id = s.get? index id := by
  induction ops generalizing s with
  | nil => rfl
  | cons op ops ih =>
    obtain ⟨hop, hrest⟩ := List.forall_mem_cons.mp h
    rw [after_cons, ih _ hrest, get?_apply_of_ne s hop]

/-- What a batch leaves under an id depends on what was there only. -/
theorem get?_after_congr {s s' : Store} {index id : String}
    (h : s.get? index id = s'.get? index id) (ops : List Operation) :
    (s.after ops).get? index id = (s'.after ops).get? index id := by
  induction ops generalizing s s' with
  | nil => exact h
  | cons op ops ih => exact ih (get?_apply_congr h op)

/-- What a batch leaves in an index depends on the documents of that index only. -/
theorem documents_after_congr {s s' : Store} {index : String}
    (h : s.documents index = s'.documents index) (ops : List Operation) :
    (s.after ops).documents index = (s'.after ops).documents index :=
  KeyMap.ext_get? fun id => get?_after_congr (get?_congr h id) ops

/-- A store is its documents, together with which indices there are. -/
theorem ext_documents {s s' : Store} (hdocuments : ∀ index, s.documents index = s'.documents index)
    (hindices : ∀ index, s.indices.contains index = s'.indices.contains index) : s = s' := by
  obtain ⟨indices⟩ := s
  obtain ⟨indices'⟩ := s'
  refine congrArg Store.mk (KeyMap.ext_get? fun index => ?_)
  have hdocs := hdocuments index
  have hthere := hindices index
  simp only [documents, KeyMap.contains] at hdocs hthere
  cases hget : indices.get? index <;> cases hget' : indices'.get? index <;>
    simp_all

/-- A document lies in an index that is there. -/
theorem contains_of_get? {s : Store} {index id : String} {doc : Json}
    (h : s.get? index id = some doc) : s.indices.contains index = true := by
  rw [get?, documents] at h
  cases hindex : s.indices.get? index with
  | none => simp [hindex] at h
  | some docs => simp [hindex]

theorem contains_apply (s : Store) (op : Operation) (index : String) :
    (s.apply op).2.indices.contains index =
      (s.indices.contains index || (op.action = .put ∧ op.index = index : Bool)) := by
  cases op with
  | put i id doc =>
    by_cases h : index = i
    · simp [apply, put, KeyMap.contains, Operation.action, Operation.index, h]
    · simp [apply, put, KeyMap.contains, Operation.action, Operation.index, h, Ne.symm h]
  | replace i id doc =>
    rw [apply]
    split
    · rename_i hthere
      obtain ⟨doc', hdoc⟩ := Option.isSome_iff_exists.mp hthere
      have hindex := contains_of_get? hdoc
      by_cases h : index = i
      · rw [KeyMap.contains] at hindex
        simp [put, KeyMap.contains, Operation.action, h, hindex]
      · simp [put, KeyMap.contains, Operation.action, h]
    · simp [Operation.action]
  | delete i id =>
    rw [apply]
    split
    · rw [delete]
      cases hindex : s.indices.get? i with
      | none => simp [Operation.action]
      | some docs =>
        by_cases h : index = i <;>
          simp [hindex, KeyMap.contains, Operation.action, h]
    · simp [Operation.action]

/-- A batch adds the indices that it puts documents into. -/
theorem contains_after (s : Store) (ops : List Operation) (index : String) :
    (s.after ops).indices.contains index =
      (s.indices.contains index ||
        ops.any fun op => op.action = .put ∧ op.index = index) := by
  induction ops generalizing s with
  | nil => simp
  | cons op ops ih => rw [after_cons, ih, contains_apply, List.any_cons, Bool.or_assoc]

/-- Writes that only replace leave the indices as they are. -/
theorem contains_after_append_replaces {ops more : List Operation}
    (hmore : ∀ op ∈ more, op.action = .replace) (s : Store) (index : String) :
    (s.after (ops ++ more)).indices.contains index = (s.after ops).indices.contains index := by
  have hnone : (more.any fun op => op.action = .put ∧ op.index = index) = false := by
    rw [List.any_eq_false]
    intro op hop
    simp [hmore op hop]
  rw [contains_after, contains_after, List.any_append, hnone, Bool.or_false]

end Store

end ChannelDirectory
