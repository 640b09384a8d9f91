import ChannelDirectory.Proofs.Program.Regime
import ChannelDirectory.Proofs.Store.Batches

/-!
# Programs that only replace documents of an index

`p.OnlyReplaces index good` : whatever its calls are answered, `p` writes the index with
replacements only and replaces nowhere else, and it ends with the failures of a batch as soon as one
is reported. Nothing is asked of the backend, so the answers may be as stale as those of a backend
that others write in between.

A replacement neither makes a document nor deletes one. So no call of such a program changes which
documents of the index there are (`Program.OnlyReplaces.keys_step`), and a batch with a document
that is gone ends the program with the error that names it (`Program.OnlyReplaces.step_of_lacks`).
Both are said of one call ; `Network.exists_client_run` follows a client to it.
-/

namespace ChannelDirectory

/-- What an answer says could not be written. -/
def Request.failures : (r : Request) → Except BackendError r.Answer → List Failure
  | .bulk _, .ok results => (Summary.ofResults results).failures
  | _, _ => []

/-- The writes of the index are replacements, and those of other indices are not. -/
def Replacing (index : String) (ops : List Operation) : Prop :=
  ∀ op ∈ ops, op.action = .replace ↔ op.index = index

section Batches

variable {index : String} {ops : List Operation}

theorem Replacing.replacesApart (h : Replacing index ops) : ReplacesApart ops := by
  intro op hop op' hop' haction
  by_cases hindex : op.index = index
  · exact .inl ((h op hop).mpr hindex)
  · refine .inr fun hsame => hindex ?_
    rw [hsame]
    exact (h op' hop').mp haction

/-- Replacements do not change which documents there are. -/
theorem Replacing.get?_after_eq_none_iff (h : Replacing index ops) (s : Store) (id : String) :
    (s.after ops).get? index id = none ↔ s.get? index id = none := by
  induction ops generalizing s with
  | nil => rfl
  | cons op ops ih =>
    obtain ⟨hop, h⟩ := List.forall_mem_cons.mp h
    rw [Store.after_cons, ih h, Store.get?_apply_eq_none_iff]
    by_cases hindex : op.index = index
    · exact .inl (hop.mpr hindex)
    · exact .inr hindex

/-- Replacements leave the ids of an index as they are. -/
theorem Replacing.keys_after (h : Replacing index ops) (s : Store) :
    ((s.after ops).documents index).keys = (s.documents index).keys := by
  refine KeyMap.keys_eq_of_mem_iff fun id => ?_
  rw [KeyMap.mem_keys_iff, KeyMap.mem_keys_iff, ← Option.ne_none_iff_exists',
    ← Option.ne_none_iff_exists']
  exact not_congr (h.get?_after_eq_none_iff s id)

end Batches

theorem Request.failures_of_isRead {r : Request} (h : r.isRead = true)
    (answer : Except BackendError r.Answer) : r.failures answer = [] := by
  cases r with
  | bulk => cases h
  | get | multiGet | present | search | count | openScroll | continueScroll | closeScroll => rfl

/-- An available backend reports the replacements of documents that are not there. -/
theorem Backend.failures_handle {b : Backend} {r : Request} (havail : b.available = true)
    (h : ReplacesApart r.ops) :
    r.failures (b.handle r).1 = (r.ops.filter b.store.lacks).map Operation.missing := by
  cases r with
  | bulk ops =>
    rw [handle, if_pos havail]
    exact Store.failures_summary b.store h
  | get | multiGet | present | search | count | openScroll | continueScroll | closeScroll => rfl

namespace Program

variable {α β : Type} {index : String} {good : α → Prop} {good' : β → Prop} {p : Program α}
  {k : α → Program β} {b : Backend}

/-- The writes that the next call of the program asks for. -/
def pending : Program α → List Operation
  | call r _ => r.ops
  | done _ | fail _ | exhausted => []

/-- The program replaces documents of the index and does nothing else to it, and it ends with the
failures that it is told of. If it ends with a value, this is a good one. -/
def OnlyReplaces (index : String) (good : α → Prop) : Program α → Prop
  | done value => good value
  | fail _ | exhausted => True
  | call r next => Replacing index r.ops ∧ ∀ answer, (next answer).OnlyReplaces index good ∧
      (r.failures answer ≠ [] →
        ∃ applied, next answer = fail (.partialFailure applied (r.failures answer)))

/-! ## Sequences -/

/-- A sequence only replaces if both parts do. -/
theorem OnlyReplaces.bind (hp : p.OnlyReplaces index good)
    (hk : ∀ value, good value → (k value).OnlyReplaces index good') :
    (p >>= k).OnlyReplaces index good' := by
  induction p with
  | done value => exact hk value hp
  | fail | exhausted => trivial
  | call r next ih =>
    refine ⟨hp.1, fun answer => ⟨ih answer (hp.2 answer).1, fun hfailures => ?_⟩⟩
    obtain ⟨applied, hnext⟩ := (hp.2 answer).2 hfailures
    exact ⟨applied, congrArg (· >>= k) hnext⟩

theorem OnlyReplaces.discard (hp : p.OnlyReplaces index good) :
    (p >>= fun _ => done ()).OnlyReplaces index fun _ => True :=
  hp.bind fun _ _ => trivial

/-- What only reads writes nothing. -/
theorem ReadOnly.onlyReplaces (h : p.ReadOnly) : p.OnlyReplaces index fun _ => True := by
  induction p with
  | done | fail | exhausted => trivial
  | call r next ih =>
    refine ⟨fun op hop => ?_, fun answer => ⟨ih answer (h.2 answer), fun hfailures => ?_⟩⟩
    · rw [Request.ops_of_isRead h.1] at hop
      cases hop
    · exact absurd (Request.failures_of_isRead h.1 answer) hfailures

theorem onlyReplaces_ofExcept {e : Except Error α} (h : ∀ value, e = .ok value → good value) :
    (ofExcept e).OnlyReplaces index good := by
  cases e with
  | ok value => exact h value rfl
  | error => trivial

/-- Executing replacements only replaces. -/
theorem onlyReplaces_execute {ops : List Operation} (h : Replacing index ops) :
    (execute ops).OnlyReplaces index fun _ => True := by
  have hjudge : ∀ summary : Summary, ∃ judged : Program Summary,
      judged = (if summary.isSuccess then return summary
        else .fail (.partialFailure summary.applied summary.failures)) ∧
      judged.OnlyReplaces index (fun _ => True) ∧ (summary.failures ≠ [] →
        ∃ applied, judged = fail (.partialFailure applied summary.failures)) := by
    intro summary
    refine ⟨_, rfl, ?_⟩
    by_cases hsuccess : summary.isSuccess = true
    · rw [if_pos hsuccess]
      exact ⟨trivial, fun hne => absurd (List.isEmpty_iff.mp hsuccess) hne⟩
    · rw [if_neg hsuccess]
      exact ⟨trivial, fun _ => ⟨_, rfl⟩⟩
  rw [execute, submit]
  split
  · trivial
  · refine ⟨h, fun answer => ?_⟩
    cases answer with
    | error e => exact ⟨trivial, fun hfailures => absurd rfl hfailures⟩
    | ok results =>
      obtain ⟨_, rfl, honly, hfailures⟩ := hjudge (Summary.ofResults results)
      exact ⟨honly, hfailures⟩

/-! ## One call -/

/-- What such a program is about to write are replacements. -/
theorem OnlyReplaces.pending (h : p.OnlyReplaces index good) : Replacing index p.pending := by
  cases p with
  | call r next => exact h.1
  | done | fail | exhausted => exact fun op hop => absurd hop List.not_mem_nil

/-- After a step such a program is still one. -/
theorem OnlyReplaces.step (h : p.OnlyReplaces index good) (b : Backend) :
    (p.step b).1.OnlyReplaces index good := by
  cases p with
  | call r next => exact (h.2 _).1
  | done | fail | exhausted => exact h

/-- A call does not change which documents of the index there are. -/
theorem OnlyReplaces.keys_step (h : p.OnlyReplaces index good) (b : Backend) :
    ((p.step b).2.store.documents index).keys = (b.store.documents index).keys := by
  cases p with
  | done | fail | exhausted => rfl
  | call r next =>
    change ((b.handle r).2.store.documents index).keys = _
    rcases (b.store_handle r).1 with hstore | hstore
    · rw [hstore]
    · rw [hstore, h.1.keys_after]

/-- A batch with a document that is not there ends the program, with an error that names all such
documents. -/
theorem OnlyReplaces.step_of_lacks (h : p.OnlyReplaces index good) (havail : b.available = true)
    {op : Operation} (hop : op ∈ p.pending) (hlacks : b.store.lacks op = true) :
    ∃ applied, (p.step b).1 =
      fail (.partialFailure applied ((p.pending.filter b.store.lacks).map Operation.missing)) := by
  cases p with
  | done | fail | exhausted => exact absurd hop List.not_mem_nil
  | call r next =>
    have hfailures := Backend.failures_handle havail h.1.replacesApart
    have hne : r.failures (b.handle r).1 ≠ [] := by
      rw [hfailures]
      exact List.ne_nil_of_mem
        (List.mem_map_of_mem (List.mem_filter.mpr ⟨hop, hlacks⟩))
    obtain ⟨applied, hnext⟩ := (h.2 (b.handle r).1).2 hne
    rw [hfailures] at hnext
    exact ⟨applied, hnext⟩

end Program

/-! ## Several clients -/

namespace Network

variable {n : Network} {client : Nat} {P : Program Unit → Prop}

theorem after_turn {p : Program Unit} (h : n.clients[client]? = some p) :
    n.after (.turn client) =
      ⟨(p.step n.backend).2, n.clients.set client (p.step n.backend).1⟩ := by
  rw [after, h]

/-- What holds of a client, and of what becomes of it call by call, holds after any event. -/
theorem exists_client_after (hstep : ∀ p b, P p → P (p.step b).1)
    (h : ∃ p, n.clients[client]? = some p ∧ P p) (event : Event) :
    ∃ p, (n.after event).clients[client]? = some p ∧ P p := by
  obtain ⟨p, hp, hgood⟩ := h
  have hlt := (List.getElem?_eq_some_iff.mp hp).1
  cases event with
  | availability => exact ⟨p, hp, hgood⟩
  | start task =>
    refine ⟨p, ?_, hgood⟩
    change (n.clients ++ [task])[client]? = _
    rw [List.getElem?_append_left hlt, hp]
  | turn other =>
    rw [after]
    cases hother : n.clients[other]? with
    | none => exact ⟨p, hp, hgood⟩
    | some q =>
      change ∃ p, (n.clients.set other (q.step n.backend).1)[client]? = some p ∧ P p
      by_cases hsame : other = client
      · subst hsame
        obtain rfl := Option.some.inj (hother.symm.trans hp)
        exact ⟨_, List.getElem?_set_self hlt, hstep q n.backend hgood⟩
      · exact ⟨p, by rw [List.getElem?_set_ne hsame, hp], hgood⟩

/-- What each step of a client keeps holds of it after any events. -/
theorem exists_client_run (hstep : ∀ p b, P p → P (p.step b).1)
    (h : ∃ p, n.clients[client]? = some p ∧ P p) (events : List Event) :
    ∃ p, (n.run events).clients[client]? = some p ∧ P p := by
  induction events generalizing n with
  | nil => exact h
  | cons event events ih => exact ih (exists_client_after hstep h event)

/-- A client that has ended with an error stays so. -/
theorem client_run_of_fail {e : Error} (h : n.clients[client]? = some (.fail e))
    (events : List Event) : (n.run events).clients[client]? = some (.fail e) := by
  have hstep : ∀ (p : Program Unit) b, p = .fail e → (p.step b).1 = .fail e := by
    rintro _ b rfl
    rfl
  obtain ⟨p, hp, rfl⟩ := exists_client_run hstep ⟨_, h, rfl⟩ events
  exact hp

/-- If nobody does more than replace documents of the index, the same ones are there throughout. -/
theorem keys_run {index : String} (h : ∀ p ∈ n.clients, p.OnlyReplaces index fun _ => True)
    {events : List Event}
    (hstart : ∀ task, .start task ∈ events → task.OnlyReplaces index fun _ => True) :
    ((n.run events).backend.store.documents index).keys =
      (n.backend.store.documents index).keys := by
  induction events generalizing n with
  | nil => rfl
  | cons event events ih =>
    have hstart' := fun task htask => hstart task (List.mem_cons_of_mem _ htask)
    change (((n.after event).run events).backend.store.documents index).keys = _
    cases event with
    | availability => exact ih h hstart'
    | start task =>
      have htask := hstart task List.mem_cons_self
      exact ih (List.forall_mem_append.mpr ⟨h, List.forall_mem_singleton.mpr htask⟩) hstart'
    | turn client =>
      rw [after]
      cases hclient : n.clients[client]? with
      | none => exact ih h hstart'
      | some p =>
        have hp := h p (List.mem_of_getElem? hclient)
        refine (ih (fun q hq => ?_) hstart').trans (hp.keys_step n.backend)
        rcases List.mem_or_eq_of_mem_set hq with hold | rfl
        · exact h q hold
        · exact hp.step n.backend

end Network

end ChannelDirectory
