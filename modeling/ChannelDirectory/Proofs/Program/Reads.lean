import ChannelDirectory.Program
import Mathlib.Data.List.Forall2

/-!
# Programs that only read

A program is `ReadOnly` if every call it may make asks a question. Such a program leaves
the backend as it was, so all that a run of it does is to end with a value or not :
`p.Returns b value`. A sequence of reads returns a value exactly if every part does
(`returns_bind`), which turns a program into the conditions under which it ends well.

A program that goes on after a read either stops there, and nothing has changed, or runs
on from the same backend (`run_bind_cases`).
-/

namespace ChannelDirectory

/-- The call asks a question : no answer to it changes the backend. -/
def Request.isRead : Request → Bool
  | .get .. | .multiGet .. | .present .. | .search .. | .count .. => true
  | .bulk .. | .openScroll .. | .continueScroll .. | .closeScroll .. => false

/-- A read changes nothing. -/
theorem Backend.handle_of_isRead {r : Request} (h : r.isRead = true) (b : Backend) :
    (b.handle r).2 = b := by
  unfold Backend.handle
  split
  · cases r with
    | search index request =>
      rw [Backend.answer]
      cases b.rejection? request <;> rfl
    | get | multiGet | present | count => rfl
    | bulk | openScroll | continueScroll | closeScroll => cases h
  · rfl

/-- A check of all items succeeds exactly if it succeeds for each of them. -/
theorem mapM_eq_ok_iff {α β ε : Type} {f : α → Except ε β} {items : List α} {values : List β} :
    items.mapM f = .ok values ↔
      List.Forall₂ (fun item value => f item = .ok value) items values := by
  induction items generalizing values with
  | nil =>
    rw [List.mapM_nil, List.forall₂_nil_left_iff]
    exact ⟨fun h => (Except.ok.inj h).symm, fun h => h ▸ rfl⟩
  | cons item items ih =>
    rw [List.mapM_cons, List.forall₂_cons_left_iff]
    cases hitem : f item with
    | error e =>
      constructor
      · rintro ⟨⟩
      · rintro ⟨value, rest, ⟨⟩, -⟩
    | ok value =>
      simp only [← ih]
      cases hrest : items.mapM f with
      | error e =>
        constructor
        · rintro ⟨⟩
        · rintro ⟨value, rest, -, ⟨⟩, -⟩
      | ok rest =>
        constructor
        · rintro ⟨⟩
          exact ⟨value, rest, rfl, rfl, rfl⟩
        · rintro ⟨value', rest', ⟨⟩, ⟨⟩, rfl⟩
          rfl

theorem exists_of_mapM_eq_ok {α β ε : Type} {f : α → Except ε β} {items : List α}
    {values : List β} (h : items.mapM f = .ok values) {value : β} (hvalue : value ∈ values) :
    ∃ item ∈ items, f item = .ok value := by
  have hall := mapM_eq_ok_iff.mp h
  clear h
  induction hall with
  | nil => cases hvalue
  | cons hitem _ ih =>
    rcases List.mem_cons.mp hvalue with rfl | hrest
    · exact ⟨_, List.mem_cons_self, hitem⟩
    · obtain ⟨item, hmem, hok⟩ := ih hrest
      exact ⟨item, List.mem_cons_of_mem _ hmem, hok⟩

/-- A check of all items fails with the error of one of them. -/
theorem exists_of_mapM_eq_error {α β ε : Type} {f : α → Except ε β} {items : List α} {e : ε}
    (h : items.mapM f = .error e) : ∃ item ∈ items, f item = .error e := by
  induction items with
  | nil => cases h
  | cons item items ih =>
    rw [List.mapM_cons] at h
    cases hitem : f item with
    | error e' =>
      rw [hitem] at h
      cases h
      exact ⟨item, List.mem_cons_self, hitem⟩
    | ok value =>
      rw [hitem] at h
      cases hrest : items.mapM f with
      | error e' =>
        rw [hrest] at h
        cases h
        obtain ⟨item', hmem, hfail⟩ := ih hrest
        exact ⟨item', List.mem_cons_of_mem _ hmem, hfail⟩
      | ok values =>
        rw [hrest] at h
        cases h

/-- A check of all items passes if and only if each of them passes. -/
theorem forM_eq_ok_iff {α ε : Type} {f : α → Except ε Unit} {items : List α} :
    items.forM f = .ok () ↔ ∀ item ∈ items, f item = .ok () := by
  induction items with
  | nil => exact iff_of_true rfl (List.forall_mem_nil _)
  | cons item items ih =>
    rw [List.forall_mem_cons, ← ih]
    change (do f item; items.forM f) = .ok () ↔ _
    cases f item with
    | error e => exact ⟨by rintro ⟨⟩, by rintro ⟨⟨⟩, -⟩⟩
    | ok _ => exact (and_iff_right rfl).symm

namespace Program

variable {α β : Type} {p : Program α} {k : α → Program β} {b b' : Backend}

/-- Every call that the program may make is a question. -/
def ReadOnly : Program α → Prop
  | done _ | fail _ | exhausted => True
  | call r next => r.isRead = true ∧ ∀ answer, (next answer).ReadOnly

/-- The program ends with a value on a backend. -/
def Returns (p : Program α) (b : Backend) (value : α) : Prop :=
  (p.run b).1 = .ok value

theorem Returns.run_eq {value : α} (h : p.Returns b value) :
    p.run b = (.ok value, (p.run b).2) :=
  Prod.ext h rfl

/-! ## What is read-only -/

theorem readOnly_done (value : α) : (done value).ReadOnly := trivial

/-- A program that reads and then reads is a program that reads. -/
theorem ReadOnly.bind (hp : p.ReadOnly) (hk : ∀ value, (k value).ReadOnly) :
    (p >>= k).ReadOnly := by
  induction p with
  | done value => exact hk value
  | fail | exhausted => trivial
  | call r next ih => exact ⟨hp.1, fun answer => ih answer (hp.2 answer)⟩

theorem readOnly_request {r : Request} (h : r.isRead = true) : (request r).ReadOnly := by
  refine ⟨h, fun answer => ?_⟩
  cases answer <;> trivial

theorem readOnly_ofExcept (e : Except Error α) : (ofExcept e).ReadOnly := by
  cases e <;> trivial

theorem readOnly_check (e : Except ValidationError α) : (check e).ReadOnly := by
  cases e <;> trivial

theorem readOnly_each {items : List α} {f : α → Program β} (h : ∀ item ∈ items, (f item).ReadOnly) :
    (each items f).ReadOnly := by
  induction items with
  | nil => trivial
  | cons item items ih =>
    refine (h item List.mem_cons_self).bind fun value => ?_
    exact (ih fun i hi => h i (List.mem_cons_of_mem _ hi)).bind fun values => trivial

/-- A read leaves the backend as it was. -/
theorem ReadOnly.run_snd (h : p.ReadOnly) (b : Backend) : (p.run b).2 = b := by
  induction p with
  | done | fail | exhausted => rfl
  | call r next ih =>
    rw [run, runWith]
    simp only [Backend.handle_of_isRead h.1 b]
    exact ih _ (h.2 _)

/-! ## What a read returns -/

/-- A sequence runs its first part, and its second on what the first has left. -/
theorem run_bind (p : Program α) (k : α → Program β) (b : Backend) :
    (p >>= k).run b =
      match p.run b with
      | (.ok value, b) => (k value).run b
      | (.failed e, b) => (.failed e, b)
      | (.exhausted, b) => (.exhausted, b) := by
  simp only [run, runWith_bind]
  obtain ⟨outcome, after⟩ := p.runWith Backend.handle b
  cases outcome <;> rfl

/-- What is made of the value of a program does not concern the backend. -/
theorem run_map_snd (p : Program α) (f : α → β) (b : Backend) :
    ((p >>= fun value => done (f value)).run b).2 = (p.run b).2 := by
  rw [run_bind]
  rcases p.run b with ⟨_ | _ | _, after⟩ <;> rfl

/-- What runs after a read runs on the backend that was read. -/
theorem ReadOnly.run_bind (hp : p.ReadOnly) (b : Backend) :
    (p >>= k).run b =
      match (p.run b).1 with
      | .ok value => (k value).run b
      | .failed e => (.failed e, b)
      | .exhausted => (.exhausted, b) := by
  rw [Program.run_bind]
  have hb := hp.run_snd b
  rcases hrun : p.run b with ⟨outcome, after⟩
  rw [hrun] at hb
  cases outcome <;> simp [← hb]

/-- A program either stops in its first reads, with nothing changed, or goes on. -/
theorem ReadOnly.run_bind_cases (hp : p.ReadOnly) {outcome : Outcome β}
    (h : (p >>= k).run b = (outcome, b')) :
    (b' = b ∧ ∀ value, outcome ≠ .ok value) ∨
      ∃ value, p.Returns b value ∧ (k value).run b = (outcome, b') := by
  rw [hp.run_bind] at h
  cases hrun : (p.run b).1 with
  | ok value =>
    rw [hrun] at h
    exact Or.inr ⟨value, hrun, h⟩
  | failed e =>
    rw [hrun] at h
    obtain ⟨rfl, rfl⟩ := Prod.mk.inj h
    exact Or.inl ⟨rfl, by simp⟩
  | exhausted =>
    rw [hrun] at h
    obtain ⟨rfl, rfl⟩ := Prod.mk.inj h
    exact Or.inl ⟨rfl, by simp⟩

/-- A sequence that starts with reads and succeeds has read a value and gone on with it from where
it was. -/
theorem ReadOnly.run_bind_eq_ok (hp : p.ReadOnly) {value : β}
    (h : (p >>= k).run b = (.ok value, b')) :
    ∃ read, p.Returns b read ∧ (k read).run b = (.ok value, b') := by
  rcases hp.run_bind_cases h with ⟨-, hne⟩ | hgo
  · exact absurd rfl (hne value)
  · exact hgo

/-- A sequence of reads returns a value exactly if every part does. -/
theorem returns_bind (hp : p.ReadOnly) {value : β} :
    (p >>= k).Returns b value ↔ ∃ read, p.Returns b read ∧ (k read).Returns b value := by
  unfold Returns
  rw [hp.run_bind]
  cases hrun : (p.run b).1 <;> simp

@[simp]
theorem returns_done {value value' : α} : (done value).Returns b value' ↔ value' = value := by
  simp [Returns, run, runWith, eq_comm]

@[simp]
theorem returns_fail {e : Error} {value : α} : ¬(fail e : Program α).Returns b value := by
  simp [Returns, run, runWith]

@[simp]
theorem returns_exhausted {value : α} : ¬(exhausted : Program α).Returns b value := by
  simp [Returns, run, runWith]

@[simp]
theorem returns_ofExcept {e : Except Error α} {value : α} :
    (ofExcept e).Returns b value ↔ e = .ok value := by
  cases e <;> simp [ofExcept, eq_comm]

@[simp]
theorem returns_check {e : Except ValidationError α} {value : α} :
    (check e).Returns b value ↔ e = .ok value := by
  cases e <;> simp [check, eq_comm]

theorem returns_request {r : Request} {answer : r.Answer} :
    (request r).Returns b answer ↔ (b.handle r).1 = .ok answer := by
  rw [Returns, run, request, runWith]
  obtain ⟨result, after⟩ := b.handle r
  cases result <;> simp [runWith]

/-- Reads for the items of a list return a list of what each of them returns. -/
theorem returns_each {items : List α} {f : α → Program β} (hf : ∀ item, (f item).ReadOnly)
    {values : List β} :
    (each items f).Returns b values ↔
      List.Forall₂ (fun item value => (f item).Returns b value) items values := by
  induction items generalizing values with
  | nil =>
    rw [each, pure_eq, returns_done]
    exact ⟨fun h => h ▸ .nil, fun h => by cases h; rfl⟩
  | cons item items ih =>
    rw [each, returns_bind (hf item)]
    simp only [returns_bind (readOnly_each fun i _ => hf i), ih, pure_eq, returns_done]
    constructor
    · rintro ⟨value, hvalue, rest, hrest, rfl⟩
      exact .cons hvalue hrest
    · intro h
      cases h with
      | cons hvalue hrest => exact ⟨_, hvalue, _, hrest, rfl⟩

/-- Where all items are read, each is. -/
theorem exists_of_returns_each {items : List α} {f : α → Program β}
    (hf : ∀ item, (f item).ReadOnly) {values : List β} (h : (each items f).Returns b values)
    {item : α} (hitem : item ∈ items) : ∃ value, (f item).Returns b value := by
  have hall := (returns_each hf).mp h
  clear h
  induction hall with
  | nil => cases hitem
  | cons hvalue _ ih =>
    rcases List.mem_cons.mp hitem with rfl | hrest
    · exact ⟨_, hvalue⟩
    · exact ih hrest

end Program

end ChannelDirectory
