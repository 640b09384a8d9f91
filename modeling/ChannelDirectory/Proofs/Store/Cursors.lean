import ChannelDirectory.Proofs.Program.Reads

/-!
# Cursors under calls

What the calls of other clients do to a cursor. Serial numbers are given out once
(`Backend.Fresh`), and a cursor is changed only by the calls that name it : all that another call
can do to it is to drop it once it has expired (`Backend.leaves_handle`). So an open cursor that
does not expire keeps its hits over every call that spares it (`Backend.Holds.handle`), and one
that is gone never comes back, not even for calls that ask for it (`Backend.Lost.handle`).

A write changes the store and no cursor : the hits that are left were taken when the cursor was
opened.
-/

namespace ChannelDirectory

/-- The call neither continues nor closes the cursor of a serial number. -/
def Request.Spares (serial : Nat) : Request → Prop
  | .continueScroll cursor _ | .closeScroll cursor => cursor ≠ .issued serial
  | _ => True

instance (serial : Nat) : DecidablePred (Request.Spares serial)
  | .continueScroll cursor _ => inferInstanceAs (Decidable (cursor ≠ .issued serial))
  | .closeScroll cursor => inferInstanceAs (Decidable (cursor ≠ .issued serial))
  | .get .. | .multiGet .. | .present .. | .search .. | .count .. | .bulk .. | .openScroll .. =>
    isTrue trivial

namespace Backend

variable {b b' : Backend} {serial pageSize : Nat} {remaining : List Hit} {r : Request}

/-- The serial numbers from the next one on have not been given out. -/
def Fresh (b : Backend) : Prop :=
  ∀ c ∈ b.cursors, c.serial < b.nextSerial

instance (b : Backend) : Decidable b.Fresh :=
  inferInstanceAs (Decidable (∀ c ∈ b.cursors, _))

/-- The cursor of a serial number is open and does not expire, and has these hits left. -/
structure Holds (b : Backend) (serial : Nat) (remaining : List Hit) (pageSize : Nat) : Prop where
  available : b.available = true
  issued : serial < b.nextSerial
  found : ∃ lifetime, lifetime ≠ 0 ∧
    b.cursor? (.issued serial) = some ⟨serial, remaining, pageSize, lifetime⟩

/-- A serial number has been given out, and its cursor is there no longer. -/
structure Lost (b : Backend) (serial : Nat) : Prop where
  available : b.available = true
  issued : serial < b.nextSerial
  gone : b.cursor? (.issued serial) = none

/-! ## Calls that do not name a cursor -/

/-- From one backend to the other, the cursor of a serial number has been left alone, or has been
dropped because it had expired. -/
structure Leaves (serial : Nat) (b b' : Backend) : Prop where
  available : b'.available = b.available
  serials : b.nextSerial ≤ b'.nextSerial
  kept : ∀ c, b.cursor? (.issued serial) = some c → c.lifetime ≠ 0 →
    b'.cursor? (.issued serial) = some c
  gone : b.cursor? (.issued serial) = none → b'.cursor? (.issued serial) = none

theorem leaves_of_cursor?_eq (havail : b'.available = b.available)
    (hserials : b.nextSerial ≤ b'.nextSerial)
    (hsame : b'.cursor? (.issued serial) = b.cursor? (.issued serial)) : Leaves serial b b' :=
  ⟨havail, hserials, fun _ hc _ => hsame.trans hc, fun hnone => hsame.trans hnone⟩

theorem Leaves.refl (b : Backend) : Leaves serial b b :=
  leaves_of_cursor?_eq rfl (Nat.le_refl _) rfl

theorem Leaves.trans {b'' : Backend} (h : Leaves serial b b') (h' : Leaves serial b' b'') :
    Leaves serial b b'' where
  available := h'.available.trans h.available
  serials := Nat.le_trans h.serials h'.serials
  kept c hc hlife := h'.kept c (h.kept c hc hlife) hlife
  gone hnone := h'.gone (h.gone hnone)

theorem serial_of_cursor? {c : Cursor} (h : b.cursor? (.issued serial) = some c) :
    c.serial = serial := by
  simpa using List.find?_some h

/-- Dropping expired cursors leaves the others. -/
theorem leaves_dropExpired (b : Backend) : Leaves serial b b.dropExpired where
  available := rfl
  serials := Nat.le_refl _
  kept c hc hlife := by
    obtain ⟨hserial, before, after, hsplit, hbefore⟩ := List.find?_eq_some_iff_append.mp hc
    refine List.find?_eq_some_iff_append.mpr ⟨hserial, before.filter fun c => !c.expired,
      after.filter fun c => !c.expired, ?_, fun other hother => ?_⟩
    · simp [dropExpired, hsplit, Cursor.expired, hlife]
    · exact hbefore other (List.mem_filter.mp hother).1
  gone hnone := by
    rw [cursor?, List.find?_eq_none] at hnone ⊢
    exact fun c hc => hnone c (List.mem_filter.mp hc).1

/-- A new cursor has another serial number. -/
theorem leaves_openScroll (issued : serial < b.nextSerial) (index : String) (p : Predicate)
    (size lifetime : Nat) : Leaves serial b (b.openScroll index p size lifetime).2 := by
  rw [openScroll]
  split
  · exact Leaves.refl b
  · refine (leaves_dropExpired b).trans (leaves_of_cursor?_eq rfl (Nat.le_succ _) ?_)
    rw [cursor?, cursor?, List.find?_append]
    simp [dropExpired, Nat.ne_of_gt issued]

/-- A cursor that is looked for after one of them has been renewed. -/
theorem find?_renewed (cursors : List Cursor) (renewed : Cursor) :
    (cursors.map fun c => if c.serial = renewed.serial then renewed else c).find?
        (fun c => c.serial == serial) =
      (cursors.find? fun c => c.serial == serial).map fun c =>
        if renewed.serial = serial then renewed else c := by
  have hserial : (fun c : Cursor => c.serial == serial) ∘
      (fun c => if c.serial = renewed.serial then renewed else c) =
        fun c => c.serial == serial := by
    funext c
    by_cases hc : c.serial = renewed.serial <;> simp [hc]
  rw [List.find?_map, hserial]
  refine Option.map_congr fun c hc => ?_
  have hfound : c.serial = serial := by simpa using List.find?_some hc
  rw [hfound]
  exact if_congr eq_comm rfl rfl

theorem cursor?_closed {other : Cursor} (hne : other.serial ≠ serial) :
    ({ b with cursors := b.cursors.filter fun c => c.serial ≠ other.serial }).cursor?
      (.issued serial) = b.cursor? (.issued serial) := by
  rw [cursor?, cursor?, List.find?_filter]
  congr 1
  funext c
  by_cases hc : c.serial = serial
  · simp [hc, hne.symm]
  · simp [hc]

/-- Another identity is the one of another cursor. -/
theorem serial_ne_of_cursor? {cursor : CursorId} {other : Cursor} (h : cursor ≠ .issued serial)
    (hother : b.cursor? cursor = some other) : other.serial ≠ serial := by
  cases cursor with
  | foreign text => cases hother
  | issued asked =>
    rw [serial_of_cursor? hother]
    exact fun heq => h (congrArg CursorId.issued heq)

/-- A request that does not name a cursor leaves it. -/
theorem leaves_handle (issued : serial < b.nextSerial) (spares : r.Spares serial) :
    Leaves serial b (b.handle r).2 := by
  rw [handle]
  split
  · cases r with
    | get | multiGet | present | count => exact Leaves.refl b
    | search index request =>
      rw [answer]
      cases b.rejection? request <;> exact Leaves.refl b
    | bulk ops => exact leaves_of_cursor?_eq rfl (Nat.le_refl _) rfl
    | openScroll index p size lifetime => exact leaves_openScroll issued index p size lifetime
    | continueScroll cursor lifetime =>
      refine (leaves_dropExpired b).trans ?_
      rw [answer, continueScroll]
      cases hother : b.dropExpired.cursor? cursor with
      | none => exact Leaves.refl _
      | some other =>
        refine leaves_of_cursor?_eq rfl (Nat.le_refl _) ((find?_renewed b.dropExpired.cursors
          ⟨other.serial, other.remaining.drop other.pageSize, other.pageSize, lifetime⟩).trans ?_)
        simp [serial_ne_of_cursor? spares hother, cursor?]
    | closeScroll cursor =>
      rw [answer, closeScroll]
      cases hother : b.cursor? cursor with
      | none => exact Leaves.refl b
      | some other =>
        exact leaves_of_cursor?_eq rfl (Nat.le_refl _)
          (cursor?_closed (serial_ne_of_cursor? spares hother))
  · exact Leaves.refl b

/-- An open cursor keeps its hits over every call that spares it. -/
theorem Holds.handle (h : b.Holds serial remaining pageSize) (spares : r.Spares serial) :
    (b.handle r).2.Holds serial remaining pageSize := by
  have hleaves := leaves_handle h.issued spares
  obtain ⟨lifetime, hlife, hfound⟩ := h.found
  exact ⟨hleaves.available.trans h.available, Nat.lt_of_lt_of_le h.issued hleaves.serials,
    lifetime, hlife, hleaves.kept _ hfound hlife⟩

/-- A cursor that is gone does not come back, whatever is called. -/
theorem Lost.handle (h : b.Lost serial) (r : Request) : (b.handle r).2.Lost serial := by
  have hleaves : Leaves serial b (b.handle r).2 := by
    by_cases spares : r.Spares serial
    · exact leaves_handle h.issued spares
    -- A call that names the cursor does not find it.
    cases r with
    | continueScroll cursor lifetime =>
      obtain rfl : cursor = .issued serial := Decidable.not_not.mp spares
      rw [Backend.handle, if_pos h.available, answer, continueScroll,
        (leaves_dropExpired b).gone h.gone]
      exact leaves_dropExpired b
    | closeScroll cursor =>
      obtain rfl : cursor = .issued serial := Decidable.not_not.mp spares
      rw [Backend.handle, if_pos h.available, answer, closeScroll, h.gone]
      exact Leaves.refl b
    | get | multiGet | present | search | count | bulk | openScroll => exact absurd trivial spares
  exact ⟨hleaves.available.trans h.available, Nat.lt_of_lt_of_le h.issued hleaves.serials,
    hleaves.gone h.gone⟩

/-- A backend does not give out a serial number again. -/
theorem Fresh.handle (h : b.Fresh) (r : Request) : (b.handle r).2.Fresh := by
  have hdropped : b.dropExpired.Fresh := fun c hc => h c (List.mem_filter.mp hc).1
  rw [Backend.handle]
  split
  · cases r with
    | get | multiGet | present | count => exact h
    | search index request =>
      rw [answer]
      cases b.rejection? request <;> exact h
    | bulk ops => exact h
    | openScroll index p size lifetime =>
      rw [answer, openScroll]
      split
      · exact h
      · intro c hc
        rcases List.mem_append.mp hc with hc | hc
        · exact Nat.lt_succ_of_lt (hdropped c hc)
        · rw [List.mem_singleton.mp hc]
          exact Nat.lt_succ_self _
    | continueScroll cursor lifetime =>
      rw [answer, continueScroll]
      cases hfound : b.dropExpired.cursor? cursor with
      | none => exact hdropped
      | some found =>
        intro c hc
        obtain ⟨old, hold, rfl⟩ := List.mem_map.mp hc
        split
        · rename_i heq
          exact heq ▸ hdropped old hold
        · exact hdropped old hold
    | closeScroll cursor =>
      rw [answer, closeScroll]
      cases b.cursor? cursor with
      | none => exact h
      | some found => exact fun c hc => h c (List.mem_filter.mp hc).1
  · exact h

/-! ## Calls that name the cursor -/

/-- A cursor that is opened holds the hits that its first page leaves over. -/
theorem handle_openScroll (havail : b.available = true) (fresh : b.Fresh) (hsize : pageSize ≠ 0)
    {lifetime : Nat} (hlife : lifetime ≠ 0) (index : String) (p : Predicate) :
    (b.handle (.openScroll index p pageSize lifetime)).1 =
        .ok ⟨.issued b.nextSerial, (b.store.matching index p).take pageSize, pageSize⟩ ∧
      (b.handle (.openScroll index p pageSize lifetime)).2.Holds b.nextSerial
        ((b.store.matching index p).drop pageSize) pageSize := by
  rw [handle, if_pos havail, answer, openScroll, if_neg hsize]
  refine ⟨rfl, havail, Nat.lt_succ_self _, lifetime, hlife, ?_⟩
  have hnone : b.dropExpired.cursors.find? (fun c => c.serial == b.nextSerial) = none := by
    rw [List.find?_eq_none]
    intro c hc
    simpa using Nat.ne_of_lt (fresh c (List.mem_filter.mp hc).1)
  rw [cursor?, List.find?_append, hnone]
  simp [dropExpired]

/-- A cursor that is continued delivers its next page and renews its lifetime. -/
theorem Holds.handle_continueScroll (h : b.Holds serial remaining pageSize) {lifetime : Nat}
    (hlife : lifetime ≠ 0) :
    (b.handle (.continueScroll (.issued serial) lifetime)).1 =
        .ok ⟨.issued serial, remaining.take pageSize, pageSize⟩ ∧
      (b.handle (.continueScroll (.issued serial) lifetime)).2.Holds serial
        (remaining.drop pageSize) pageSize := by
  obtain ⟨old, hold, hfound⟩ := h.found
  have hkept := (leaves_dropExpired b).kept _ hfound hold
  rw [Backend.handle, if_pos h.available, answer, continueScroll, hkept]
  refine ⟨rfl, h.available, h.issued, lifetime, hlife, (find?_renewed b.dropExpired.cursors
    ⟨serial, remaining.drop pageSize, pageSize, lifetime⟩).trans ?_⟩
  rw [cursor?] at hkept
  rw [hkept, Option.map_some, if_pos rfl]

/-- A cursor that is closed is gone. -/
theorem Holds.handle_closeScroll (h : b.Holds serial remaining pageSize) :
    (b.handle (.closeScroll (.issued serial))).1 = .ok () ∧
      (b.handle (.closeScroll (.issued serial))).2.Lost serial := by
  obtain ⟨lifetime, -, hfound⟩ := h.found
  rw [Backend.handle, if_pos h.available, answer, closeScroll, hfound]
  refine ⟨rfl, h.available, h.issued, ?_⟩
  rw [cursor?, List.find?_eq_none]
  intro c hc
  simpa using (List.mem_filter.mp hc).2

/-- A cursor that is lost is not found. -/
theorem Lost.handle_continueScroll (h : b.Lost serial) (lifetime : Nat) :
    (b.handle (.continueScroll (.issued serial) lifetime)).1 =
      .error (.scrollNotFound (.issued serial)) := by
  rw [Backend.handle, if_pos h.available, answer, continueScroll,
    (leaves_dropExpired b).gone h.gone]

end Backend

end ChannelDirectory
