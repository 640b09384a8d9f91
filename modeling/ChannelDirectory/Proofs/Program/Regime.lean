import ChannelDirectory.Proofs.Collection.Pages
import ChannelDirectory.Proofs.Program.Writes

/-!
# Programs among others that keep to a rule

Between two calls of a program other clients may call the backend as well. A `Regime` is a rule
that all of them keep to : what holds of the backend throughout, which writes are allowed, and with
which errors a program may end. An allowed write keeps what holds, whatever else has been written
since it was planned.

`p.Upholds R good` : every write of `p` is allowed and its value, if it ends with one, is `good`,
provided that each of its calls is answered by some backend of which the rule holds. So a program
is followed call by call, without a word about the others. The rules for sequences and for reading
from a collection come first ; `Network.Within.run` puts any number of programs side by side.
-/

namespace ChannelDirectory

/-- The writes that a call asks for. -/
def Request.ops : Request → List Operation
  | .bulk ops => ops
  | .get .. | .multiGet .. | .present .. | .search .. | .count .. | .openScroll ..
  | .continueScroll .. | .closeScroll .. => []

/-- The backend has refused a request. -/
def Error.IsRefusal : Error → Prop
  | .backend (.rejected _) => True
  | _ => False

/-- A rule for all clients of a backend. -/
structure Regime where
  /-- What holds of the backend throughout. -/
  state : Backend → Prop
  /-- The writes that a client may ask for. -/
  allows : Operation → Prop
  /-- The errors that a program may end with. -/
  errors : Error → Prop
  congr : ∀ {b b' : Backend}, state b → b'.store = b.store → b'.window = b.window → state b'
  after : ∀ {b : Backend} {ops : List Operation}, state b → (∀ op ∈ ops, allows op) →
    state (b.after ops)
  /-- Only refusals can be excluded. -/
  errors_of_not_refusal : ∀ {e : Error}, ¬e.IsRefusal → errors e

theorem Request.ops_of_isRead {r : Request} (h : r.isRead = true) : r.ops = [] := by
  cases r with
  | bulk => cases h
  | get | multiGet | present | search | count | openScroll | continueScroll | closeScroll => rfl

/-- A call leaves the store as it was, or carries out its writes. -/
theorem Backend.store_handle (b : Backend) (r : Request) :
    ((b.handle r).2.store = b.store ∨ (b.handle r).2.store = b.store.after r.ops) ∧
      (b.handle r).2.window = b.window := by
  by_cases havail : b.available = true
  · rw [handle, if_pos havail]
    cases r with
    | get | multiGet | present | count => exact ⟨.inl rfl, rfl⟩
    | bulk ops => exact ⟨.inr rfl, rfl⟩
    | search index request =>
      rw [answer]
      cases b.rejection? request <;> exact ⟨.inl rfl, rfl⟩
    | openScroll index predicate pageSize lifetime =>
      rw [answer, openScroll]
      split <;> exact ⟨.inl rfl, rfl⟩
    | continueScroll cursor lifetime =>
      rw [answer, continueScroll]
      split <;> exact ⟨.inl rfl, rfl⟩
    | closeScroll cursor =>
      rw [answer, closeScroll]
      split <;> exact ⟨.inl rfl, rfl⟩
  · rw [handle, if_neg havail]
    exact ⟨.inl rfl, rfl⟩

/-- An allowed call keeps what holds of the backend. -/
theorem Regime.state_handle {R : Regime} {b : Backend} {r : Request} (h : R.state b)
    (hr : ∀ op ∈ r.ops, R.allows op) : R.state (b.handle r).2 := by
  obtain ⟨hstore | hstore, hwindow⟩ := b.store_handle r
  · exact R.congr h hstore hwindow
  · exact R.congr (R.after h hr) hstore hwindow

namespace Program

variable {α β : Type} {R R' : Regime} {good : α → Prop} {good' : β → Prop} {p : Program α}
  {k : α → Program β} {b : Backend}

/-- The program keeps to the rule, and ends with a good value if with any. -/
def Upholds (R : Regime) (good : α → Prop) : Program α → Prop
  | done value => good value
  | fail e => R.errors e
  | exhausted => True
  | call r next => (∀ op ∈ r.ops, R.allows op) ∧
      ∀ b, R.state b → (next (b.handle r).1).Upholds R good

/-! ## Sequences -/

/-- A program that ends with a good value ends with a value that is good in a weaker sense. -/
theorem Upholds.mono (h : p.Upholds R good) {better : α → Prop}
    (hgood : ∀ value, good value → better value) : p.Upholds R better := by
  induction p with
  | done value => exact hgood value h
  | fail | exhausted => exact h
  | call r next ih => exact ⟨h.1, fun b hb => ih _ (h.2 b hb)⟩

/-- What keeps to a rule keeps to one that holds of fewer backends and allows more. -/
theorem Upholds.weaken (h : p.Upholds R good) (hstate : ∀ b, R'.state b → R.state b)
    (hallows : ∀ op, R.allows op → R'.allows op) (herrors : ∀ e, R.errors e → R'.errors e) :
    p.Upholds R' good := by
  induction p with
  | done value => exact h
  | fail e => exact herrors e h
  | exhausted => trivial
  | call r next ih =>
    exact ⟨fun op hop => hallows op (h.1 op hop), fun b hb => ih _ (h.2 b (hstate b hb))⟩

/-- A rule is upheld by a sequence if it is by both parts, the second for each good value of the
first. -/
theorem Upholds.bind (hp : p.Upholds R good)
    (hk : ∀ value, good value → (k value).Upholds R good') : (p >>= k).Upholds R good' := by
  induction p with
  | done value => exact hk value hp
  | fail | exhausted => exact hp
  | call r next ih => exact ⟨hp.1, fun b hb => ih _ (hp.2 b hb)⟩

theorem upholds_fail {e : Error} (h : ¬e.IsRefusal) : (fail e : Program α).Upholds R good :=
  R.errors_of_not_refusal h

theorem upholds_ofExcept {e : Except Error α} (hok : ∀ value, e = .ok value → good value)
    (herror : ∀ error, e = .error error → ¬error.IsRefusal) : (ofExcept e).Upholds R good := by
  cases e with
  | ok value => exact hok value rfl
  | error error => exact upholds_fail (herror error rfl)

theorem upholds_check {e : Except ValidationError α} (hok : ∀ value, e = .ok value → good value) :
    (check e).Upholds R good := by
  cases e with
  | ok value => exact hok value rfl
  | error e => exact upholds_fail not_false

/-- A rule is upheld item by item. -/
theorem upholds_each {items : List α} {f : α → Program β} {good : α → β → Prop}
    (h : ∀ item ∈ items, (f item).Upholds R (good item)) :
    (each items f).Upholds R fun values => ∀ item ∈ items, ∃ value ∈ values, good item value := by
  induction items with
  | nil => exact fun item hitem => absurd hitem List.not_mem_nil
  | cons item items ih =>
    obtain ⟨hfirst, h⟩ := List.forall_mem_cons.mp h
    refine hfirst.bind fun value hvalue => (ih h).bind fun values hvalues => ?_
    refine List.forall_mem_cons.mpr ⟨⟨value, List.mem_cons_self, hvalue⟩, fun i hi => ?_⟩
    obtain ⟨v, hv, hgood⟩ := hvalues i hi
    exact ⟨v, List.mem_cons_of_mem _ hv, hgood⟩

/-- The backend answers a question, or is not available. -/
theorem upholds_request {r : Request} (good : r.Answer → Prop) (hops : ∀ op ∈ r.ops, R.allows op)
    (hanswer : ∀ b, R.state b → ∃ answer, (b.answer r).1 = .ok answer ∧ good answer) :
    (request r).Upholds R good := by
  refine ⟨hops, fun b hb => ?_⟩
  rw [Backend.handle]
  split
  · obtain ⟨answer, hok, hgood⟩ := hanswer b hb
    rw [hok]
    exact hgood
  · exact upholds_fail not_false

/-- A program that only reads keeps to every rule that excludes no error. -/
theorem ReadOnly.upholds (h : p.ReadOnly) (herrors : ∀ e, R.errors e) :
    p.Upholds R fun _ => True := by
  induction p with
  | done | exhausted => trivial
  | fail e => exact herrors e
  | call r next ih =>
    refine ⟨fun op hop => ?_, fun b _ => ih _ (h.2 _)⟩
    rw [Request.ops_of_isRead h.1] at hop
    cases hop

/-- A run of its own, too, ends within the rule. -/
theorem Upholds.run (h : p.Upholds R good) (hb : R.state b) :
    R.state (p.run b).2 ∧
      (∀ value, (p.run b).1 = .ok value → good value) ∧
      ∀ e, (p.run b).1 = .failed e → R.errors e := by
  induction p generalizing b with
  | done value =>
    refine ⟨hb, ?_, by rintro _ ⟨⟩⟩
    rintro _ ⟨⟩
    exact h
  | fail e =>
    refine ⟨hb, by rintro _ ⟨⟩, ?_⟩
    rintro _ ⟨⟩
    exact h
  | exhausted => exact ⟨hb, by rintro _ ⟨⟩, by rintro _ ⟨⟩⟩
  | call r next ih => exact ih _ (h.2 b hb) (R.state_handle hb h.1)

end Program

/-! ## Writing -/

/-- A batch of allowed writes. -/
theorem upholds_execute {R : Regime} {ops : List Operation} (h : ∀ op ∈ ops, R.allows op) :
    (execute ops).Upholds R fun _ => True := by
  have hsubmit : (submit ops).Upholds R fun _ => True := by
    rw [submit]
    split
    · trivial
    · have hbulk : (Program.request (.bulk ops)).Upholds R fun _ => True :=
        Program.upholds_request _ h fun b _ => ⟨_, rfl, trivial⟩
      exact hbulk.bind fun _ _ => trivial
  refine hsubmit.bind fun summary _ => ?_
  split
  · trivial
  · exact Program.upholds_fail not_false

/-! ## Reading from a collection -/

/-- The document of a hit is stored under its id. -/
theorem Store.get?_of_mem_matching {s : Store} {index : String} {p : Predicate} {hit : Hit}
    (h : hit ∈ s.matching index p) : s.get? index hit.id = some hit.source := by
  obtain ⟨entry, hentry, rfl⟩ := List.mem_map.mp (List.mem_mergeSort.mp h)
  exact KeyMap.get?_eq_some_iff_mem.mpr (List.mem_filter.mp hentry).1

/-- The hits of a page match. -/
theorem Store.mem_matching_of_mem_search {s : Store} {index : String} {request : SearchRequest}
    {hit : Hit} (h : hit ∈ (s.search index request).hits) :
    hit ∈ s.matching index request.predicate := by
  have hpart := List.mem_of_mem_drop (List.mem_of_mem_take h)
  cases hafter : request.after with
  | none =>
    rw [hafter] at hpart
    exact hpart
  | some name =>
    rw [hafter] at hpart
    exact (List.mem_filter.mp hpart).1

namespace Collection

open Program

variable {α : Type} [Entity α] {c : Collection α} {R : Regime} {G : α → Prop}

/-- Under the rule, whatever is read from the collection has a property. -/
def Yields (c : Collection α) (R : Regime) (G : α → Prop) : Prop :=
  ∀ b id doc record, R.state b → b.store.get? c.index id = some doc →
    Entity.decode doc = .ok record → G record

/-- Under the rule, a program may ask for pages of the collection. -/
def Paged (c : Collection α) (R : Regime) : Prop :=
  ∀ b p after reason, R.state b → b.rejection? (c.pageRequest p after) = some reason →
    R.errors (.backend (.rejected reason))

theorem not_isRefusal_of_decode {id : String} {doc : Json} {e : Error}
    (h : c.decode id doc = .error e) : ¬e.IsRefusal := by
  obtain ⟨cause, rfl⟩ := invalidDocument_of_decode h
  exact not_false

/-- Documents that are all there decode to records with the property. -/
theorem upholds_mapM_decode {γ : Type} {items : List γ} {id : γ → String} {doc : γ → Json}
    (hitems : ∀ item ∈ items, ∀ record, Entity.decode (doc item) = .ok record → G record) :
    (ofExcept (items.mapM fun item => c.decode (id item) (doc item))).Upholds R
      fun records => ∀ record ∈ records, G record := by
  refine upholds_ofExcept (fun records hok record hrecord => ?_) fun error herror => ?_
  · obtain ⟨item, hitem, hdecode⟩ := exists_of_mapM_eq_ok hok hrecord
    exact hitems item hitem record (decode_eq_ok_iff.mp hdecode)
  · obtain ⟨item, -, hdecode⟩ := exists_of_mapM_eq_error herror
    exact not_isRefusal_of_decode hdecode

/-- Of whatever is read, nothing needs to be known. -/
theorem yields_true : c.Yields R fun _ => True :=
  fun _ _ _ _ _ _ _ => trivial

/-- The record that is read is good. -/
theorem upholds_get (yields : c.Yields R G) (id : String) :
    (c.get id).Upholds R fun found => ∀ record ∈ found, G record := by
  refine (upholds_request (fun found => ∃ b, R.state b ∧ found = b.store.get? c.index id)
    (List.forall_mem_nil _) fun b hb => ⟨_, rfl, b, hb, rfl⟩).bind ?_
  rintro found ⟨b, hb, rfl⟩
  cases hdoc : b.store.get? c.index id with
  | none => exact fun record hrecord => absurd hrecord (by simp)
  | some doc =>
    have hdecode : (ofExcept (c.decode id doc)).Upholds R G :=
      upholds_ofExcept (fun record hok => yields b id doc record hb hdoc (decode_eq_ok_iff.mp hok))
        fun error => not_isRefusal_of_decode
    refine hdecode.bind fun record hrecord => ?_
    rintro _ ⟨⟩
    exact hrecord

theorem upholds_require (yields : c.Yields R G) (id : String) : (c.require id).Upholds R G := by
  refine (upholds_get yields id).bind fun found hfound => ?_
  cases found with
  | none => exact upholds_fail not_false
  | some record => exact hfound record rfl

theorem upholds_present (index : String) (ids : List String) :
    (request (.present index ids)).Upholds R fun _ => True :=
  upholds_request _ (List.forall_mem_nil _) fun _ _ => ⟨_, rfl, trivial⟩

omit [Entity α] in
theorem upholds_contains (c : Collection α) (id : String) :
    (c.contains id).Upholds R fun _ => True :=
  (upholds_present c.index [id]).bind fun _ _ => trivial

omit [Entity α] in
theorem upholds_missing (c : Collection α) (ids : List String) :
    (c.missing ids).Upholds R fun _ => True := by
  rw [missing]
  split
  · trivial
  · exact (upholds_present c.index ids).bind fun _ _ => trivial

/-- All records that are read are good. -/
theorem upholds_findAll (yields : c.Yields R G) (ids : List String) :
    (c.findAll ids).Upholds R fun records => ∀ record ∈ records, G record := by
  rw [findAll]
  split
  · exact fun record hrecord => absurd hrecord List.not_mem_nil
  · refine (upholds_request (fun docs => ∃ b, R.state b ∧
      ∀ item ∈ docs, b.store.get? c.index item.1 = some item.2)
      (List.forall_mem_nil _) fun b hb => ⟨_, rfl, b, hb, ?_⟩).bind ?_
    · intro item hitem
      obtain ⟨id, -, hid⟩ := List.mem_filterMap.mp hitem
      obtain ⟨doc, hdoc, rfl⟩ := Option.map_eq_some_iff.mp hid
      exact hdoc
    · rintro docs ⟨b, hb, hdocs⟩
      exact upholds_mapM_decode fun item hitem record hdecode =>
        yields b item.1 item.2 record hb (hdocs item hitem) hdecode

omit [Entity α] in
/-- A page, if the backend delivers it. -/
theorem upholds_search (paged : c.Paged R) (p : Predicate) (after : Option String) :
    (request (.search c.index (c.pageRequest p after))).Upholds R fun page =>
      ∃ b, R.state b ∧ page = b.store.search c.index (c.pageRequest p after) := by
  refine ⟨List.forall_mem_nil _, fun b hb => ?_⟩
  rw [Backend.handle]
  split
  · rw [Backend.answer]
    cases hreject : b.rejection? (c.pageRequest p after) with
    | none => exact ⟨b, hb, rfl⟩
    | some reason => exact paged b p after reason hb hreject
  · exact upholds_fail not_false

/-- All records on all pages are good, by induction on the budget. -/
theorem upholds_findFrom (yields : c.Yields R G) (paged : c.Paged R) (p : Predicate)
    (budget : Nat) (after : Option String) :
    (c.findFrom p budget after).Upholds R fun records => ∀ record ∈ records, G record := by
  induction budget generalizing after with
  | zero => trivial
  | succ budget ih =>
    refine (upholds_search paged p after).bind ?_
    rintro page ⟨b, hb, rfl⟩
    have hdecode : (ofExcept (c.decodeHits
        (b.store.search c.index (c.pageRequest p after)).hits)).Upholds R
          fun records => ∀ record ∈ records, G record :=
      upholds_mapM_decode fun hit hhit record hrecord => yields b hit.id hit.source record hb
        (Store.get?_of_mem_matching (Store.mem_matching_of_mem_search hhit)) hrecord
    refine hdecode.bind fun records hrecords => ?_
    split
    · exact hrecords
    · refine (ih _).bind fun more hmore => ?_
      exact List.forall_mem_append.mpr ⟨hrecords, hmore⟩

theorem upholds_findMatching (yields : c.Yields R G) (paged : c.Paged R) (budget : Nat)
    (p : Predicate) :
    (c.findMatching budget p).Upholds R fun records => ∀ record ∈ records, G record :=
  upholds_findFrom yields paged p budget none

end Collection

/-! ## Several clients -/

/-- A backend with clients that run programs on it. -/
structure Network where
  backend : Backend
  /-- What each client has still to do. -/
  clients : List (Program Unit)

/-- What happens next. -/
inductive Event where
  /-- A client starts a program. -/
  | start (task : Program Unit)
  /-- The program of a client makes its next call. -/
  | turn (client : Nat)
  /-- The backend becomes available, or unavailable. -/
  | availability (available : Bool)

/-- Makes the next call of a program, if there is one. -/
def Program.step {α : Type} : Program α → Backend → Program α × Backend
  | call r next, b => (next (b.handle r).1, (b.handle r).2)
  | p, b => (p, b)

namespace Network

/-- The network after an event. -/
def after (n : Network) : Event → Network
  | .start task => { n with clients := n.clients ++ [task] }
  | .turn client =>
    match n.clients[client]? with
    | none => n
    | some p => ⟨(p.step n.backend).2, n.clients.set client (p.step n.backend).1⟩
  | .availability available => { n with backend := { n.backend with available } }

/-- The network after events, one after another. -/
def run (n : Network) (events : List Event) : Network :=
  events.foldl after n

/-- The rule holds of the backend, and all clients keep to it. -/
structure Within (n : Network) (R : Regime) : Prop where
  state : R.state n.backend
  clients : ∀ p ∈ n.clients, p.Upholds R fun _ => True

variable {n : Network} {R : Regime}

/-- One event keeps the network within the rule. -/
theorem Within.after (h : n.Within R) {event : Event}
    (hstart : ∀ task, event = .start task → task.Upholds R fun _ => True) :
    (n.after event).Within R := by
  cases event with
  | start task =>
    refine ⟨h.state, List.forall_mem_append.mpr ⟨h.clients, ?_⟩⟩
    exact List.forall_mem_singleton.mpr (hstart task rfl)
  | availability available => exact ⟨R.congr h.state rfl rfl, h.clients⟩
  | turn client =>
    rw [Network.after]
    cases hclient : n.clients[client]? with
    | none => exact h
    | some p =>
      have hp := h.clients p (List.mem_of_getElem? hclient)
      have hstep : R.state (p.step n.backend).2 ∧
          (p.step n.backend).1.Upholds R fun _ => True := by
        cases p with
        | done | fail | exhausted => exact ⟨h.state, hp⟩
        | call r next => exact ⟨R.state_handle h.state hp.1, hp.2 _ h.state⟩
      refine ⟨hstep.1, fun p' hp' => ?_⟩
      rcases List.mem_or_eq_of_mem_set hp' with hold | rfl
      · exact h.clients p' hold
      · exact hstep.2

/-- Whatever happens, a network stays within the rule if all programs that are started keep to
it. -/
theorem Within.run (h : n.Within R) {events : List Event}
    (hstart : ∀ task, .start task ∈ events → task.Upholds R fun _ => True) :
    (n.run events).Within R := by
  induction events generalizing n with
  | nil => exact h
  | cons event events ih =>
    refine ih (h.after fun task htask => ?_) fun task htask => ?_
    · exact hstart task (htask ▸ List.mem_cons_self)
    · exact hstart task (List.mem_cons_of_mem _ htask)

end Network

end ChannelDirectory
