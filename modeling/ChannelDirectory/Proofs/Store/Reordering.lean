import ChannelDirectory.Proofs.Store.Batches

/-!
# Batches that write each document once

If no two writes of a batch address the same document, each of them finds its document as it was
before the batch, and reports what it would report on its own (`Store.results_eq_map`). Writes of
different documents can change places (`Store.apply_comm`). So the order of such a batch does not
matter : in any other order it leads to the same store, and reports the same in that order
(`Store.reordered`).
-/

namespace ChannelDirectory

/-- The document that a write addresses. -/
def Operation.address (op : Operation) : String × String :=
  (op.index, op.id)

/-- No two writes address the same document. -/
def Separate (ops : List Operation) : Prop :=
  (ops.map Operation.address).Nodup

theorem Operation.address_eq_iff {op op' : Operation} :
    op.address = op'.address ↔ op.index = op'.index ∧ op.id = op'.id :=
  Prod.mk.injEq .. ▸ Iff.rfl

/-- Writes of different ids are separate. -/
theorem separate_of_ids {ops : List Operation} (h : (ops.map Operation.id).Nodup) :
    Separate ops := by
  refine List.Nodup.of_map Prod.snd ?_
  rwa [List.map_map]

/-- Batches on different indices are separate together if each is. -/
theorem Separate.append {ops more : List Operation} (hops : Separate ops) (hmore : Separate more)
    (hindices : ∀ op ∈ ops, ∀ op' ∈ more, op.index ≠ op'.index) : Separate (ops ++ more) := by
  rw [Separate, List.map_append]
  refine List.Nodup.append hops hmore fun address hleft hright => ?_
  obtain ⟨op, hop, rfl⟩ := List.mem_map.mp hleft
  obtain ⟨op', hop', heq⟩ := List.mem_map.mp hright
  exact hindices op hop op' hop' (Operation.address_eq_iff.mp heq).1.symm

namespace Store

/-- What a write reports depends on its document only. -/
theorem status_apply_congr {s s' : Store} {op : Operation}
    (h : s.get? op.index op.id = s'.get? op.index op.id) : (s.apply op).1 = (s'.apply op).1 := by
  cases op with
  | put index id doc =>
    change s.get? index id = s'.get? index id at h
    rw [apply, apply, h]
  | replace index id doc | delete index id =>
    change s.get? index id = s'.get? index id at h
    rw [apply, apply, h]
    split <;> rfl

/-- Each write of a batch with separate writes reports what it reports on its own. -/
theorem results_eq_map (s : Store) {ops : List Operation} (h : Separate ops) :
    (s.applyAll ops).1 = ops.map fun op => ⟨op.index, op.id, op.action, (s.apply op).1⟩ := by
  induction ops generalizing s with
  | nil => rfl
  | cons op ops ih =>
    obtain ⟨hop, hrest⟩ := List.nodup_cons.mp h
    rw [results_cons, ih _ hrest, List.map_cons]
    refine congrArg _ (List.map_congr_left fun op' hop' => ?_)
    have hapart : ¬(op.index = op'.index ∧ op.id = op'.id) := fun hsame =>
      hop (Operation.address_eq_iff.mpr hsame ▸ List.mem_map_of_mem hop')
    rw [status_apply_congr (get?_apply_of_ne s hapart)]

/-- Writes of different documents can change places. -/
theorem apply_comm (s : Store) {op op' : Operation} (h : op.address ≠ op'.address) :
    ((s.apply op).2.apply op').2 = ((s.apply op').2.apply op).2 := by
  refine ext_documents (fun index => KeyMap.ext_get? fun id => ?_) fun index => ?_
  · change ((s.apply op).2.apply op').2.get? index id = ((s.apply op').2.apply op).2.get? index id
    by_cases hop : op.index = index ∧ op.id = id
    · have hother : ¬(op'.index = index ∧ op'.id = id) := fun hop' =>
        h (Operation.address_eq_iff.mpr
          ⟨hop.1.trans hop'.1.symm, hop.2.trans hop'.2.symm⟩)
      rw [get?_apply_of_ne _ hother]
      exact get?_apply_congr (get?_apply_of_ne s hother).symm op
    · rw [get?_apply_of_ne _ hop]
      exact get?_apply_congr (get?_apply_of_ne s hop) op'
  · rw [contains_apply, contains_apply, contains_apply, contains_apply, Bool.or_right_comm]

theorem after_eq_foldl (s : Store) (ops : List Operation) :
    s.after ops = ops.foldl (fun s op => (s.apply op).2) s := by
  induction ops generalizing s with
  | nil => rfl
  | cons op ops ih => rw [after_cons, ih, List.foldl_cons]

/-- In any order separate writes lead to the same store, and report the same. -/
theorem reordered (s : Store) {ops ops' : List Operation} (hperm : ops'.Perm ops)
    (h : Separate ops) :
    (s.applyAll ops').2 = (s.applyAll ops).2 ∧ (s.applyAll ops').1.Perm (s.applyAll ops).1 := by
  have hsep : Separate ops' := (hperm.map Operation.address).nodup_iff.mpr h
  constructor
  · change s.after ops' = s.after ops
    rw [after_eq_foldl, after_eq_foldl]
    refine hperm.foldl_eq' (fun op hop op' hop' s => ?_) s
    by_cases heq : op.address = op'.address
    · rw [List.inj_on_of_nodup_map hsep hop hop' heq]
    · exact apply_comm s heq
  · rw [results_eq_map s hsep, results_eq_map s h]
    exact hperm.map _

end Store

end ChannelDirectory
