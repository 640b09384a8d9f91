import Mathlib.Data.Finset.Card
import ChannelDirectory.Proofs.Query.Collecting

/-!
# Parameters after a history of calls

Parameters are changed by adding a value, by setting a key and by removing one. What a key holds
after a history of such calls depends on the calls since it was last set or removed only
(`QueryParams.valuesSince`), and the keys stand in the order in which each was last introduced
(`QueryParams.LastIntroduced`), by being set or by an addition where it was absent.

The three calls find entries in three ways. `QueryParams.keys_add`, `keys_set` and `keys_remove` say
what each does to the keys, and `valuesSince_concat` what one more call does to the values of a key;
`after_reflects` follows them along the history.
-/

namespace ChannelDirectory

namespace QueryParams

/-- A call that changes parameters. A value is added to the parameters themselves or to a copy that
is handed on; both are `add`. -/
inductive Call where
  | add (key value : String)
  | set (key value : String)
  | remove (key : String)

namespace Call

/-- The parameters after the call. -/
def perform (params : QueryParams) : Call → QueryParams
  | add key value => params.add key value
  | set key value => params.set key value
  | remove key => params.remove key

/-- The call drops what the key had before. -/
def resets (key : String) : Call → Bool
  | add _ _ => false
  | set key' _ => key' = key
  | remove key' => key' = key

/-- The value that the call gives the key. -/
def value? (key : String) : Call → Option String
  | add key' value => if key' = key then some value else none
  | set key' value => if key' = key then some value else none
  | remove _ => none

end Call

variable {calls : List Call} {call : Call} {key : String} {place : Nat}

/-- The parameters after calls that start from none. -/
def after (calls : List Call) : QueryParams :=
  calls.foldl Call.perform empty

/-! ## What a history says -/

/-- The calls from the last one on that sets or removes the key, all of them if there is none. -/
def sinceReset (key : String) : List Call → List Call
  | [] => []
  | call :: calls => if calls.any (Call.resets key) then sinceReset key calls else call :: calls

/-- The values added under a key since it was last set or removed, in the order of the calls. The
value that it was set to comes first. -/
def valuesSince (key : String) (calls : List Call) : List String :=
  (sinceReset key calls).filterMap (Call.value? key)

/-- After the calls, one more call introduces the key : it sets it, or adds to it where it is
absent. -/
def Introducing (calls : List Call) (call : Call) (key : String) : Prop :=
  ∃ value, call = .set key value ∨ call = .add key value ∧ valuesSince key calls = []

/-- The call at a place of the history introduces the key. -/
def IntroducedAt (calls : List Call) (key : String) (place : Nat) : Prop :=
  ∃ call, calls[place]? = some call ∧ Introducing (calls.take place) call key

/-- The call at a place is the last one that introduces the key. -/
def LastIntroduced (calls : List Call) (key : String) (place : Nat) : Prop :=
  IntroducedAt calls key place ∧ ∀ place', IntroducedAt calls key place' → place' ≤ place

/-- Keys stand in the order in which the calls last introduced them. -/
structure InOrder (calls : List Call) (keys : List String) : Prop where
  introduced : ∀ key ∈ keys, ∃ place, LastIntroduced calls key place
  ordered : keys.Pairwise fun key key' => ∃ place place',
    LastIntroduced calls key place ∧ LastIntroduced calls key' place' ∧ place < place'

/-- Parameters are the ordered multimap that a history of calls describes. -/
structure Reflects (params : QueryParams) (calls : List Call) : Prop where
  /-- No key occurs twice. -/
  distinct : params.keys.Nodup
  /-- No key is without values. -/
  values_ne_nil : ∀ entry ∈ params.entries, entry.2 ≠ []
  /-- The size is the number of different keys. -/
  size_eq : params.size = params.keys.toFinset.card
  /-- A key has the values since it was last set or removed, and is absent if there are none. -/
  get?_eq : ∀ key, params.get? key =
    if valuesSince key calls = [] then none else some (valuesSince key calls)
  /-- The entries list the keys with these values. -/
  entries_eq : params.entries = params.keys.map fun key => (key, valuesSince key calls)
  /-- The keys stand in the order in which they were last introduced. -/
  inOrder : InOrder calls params.keys
  /-- Removing a key gives what looking it up would have given. -/
  take_eq : ∀ key, (params.take key).1 = params.get? key

/-! ## One more call -/

theorem after_concat (calls : List Call) (call : Call) :
    after (calls ++ [call]) = call.perform (after calls) := by
  rw [after, List.foldl_append]
  rfl

theorem sinceReset_concat (key : String) (calls : List Call) (call : Call) :
    sinceReset key (calls ++ [call]) =
      if call.resets key then [call] else sinceReset key calls ++ [call] := by
  induction calls with
  | nil => simp [sinceReset]
  | cons first calls ih =>
    rw [List.cons_append, sinceReset, List.any_append, ih, sinceReset]
    by_cases hreset : call.resets key = true
    · simp [hreset]
    · by_cases hany : calls.any (Call.resets key) = true <;> simp [hreset, hany]

/-- A call that resets the key leaves only what it gives; any other call adds to what there was. -/
theorem valuesSince_concat (key : String) (calls : List Call) (call : Call) :
    valuesSince key (calls ++ [call]) =
      (if call.resets key then [] else valuesSince key calls) ++ (call.value? key).toList := by
  have hlast : [call].filterMap (Call.value? key) = (call.value? key).toList := by
    cases h : call.value? key <;> simp [h]
  rw [valuesSince, sinceReset_concat]
  split
  · rw [hlast, List.nil_append]
  · rw [List.filterMap_append, hlast, valuesSince]

theorem keys_addTo (key value : String) (entries : List (String × List String)) :
    (addTo key value entries).map Prod.fst =
      entries.map Prod.fst ++ if key ∈ entries.map Prod.fst then [] else [key] := by
  induction entries with
  | nil => rfl
  | cons entry entries ih =>
    obtain ⟨k, values⟩ := entry
    by_cases h : k = key
    · simp [addTo, h]
    · have hmem : key ∈ k :: entries.map Prod.fst ↔ key ∈ entries.map Prod.fst := by
        simp [Ne.symm h]
      rw [addTo, if_neg h, List.map_cons, ih, List.map_cons, List.cons_append]
      simp only [hmem]

/-- A key that is added to stays where it is; a new one comes last. -/
theorem keys_add (params : QueryParams) (key value : String) :
    (params.add key value).keys = params.keys ++ if key ∈ params.keys then [] else [key] :=
  keys_addTo key value params.entries

/-- A key that is set comes last. -/
theorem keys_set (params : QueryParams) (key value : String) :
    (params.set key value).keys = params.keys.filter (· != key) ++ [key] := by
  rw [keys, set, List.map_append, keys, List.filter_map]
  rfl

theorem takeFrom_eq (key : String) (entries : List (String × List String)) :
    takeFrom key entries =
      ((entries.find? fun e => e.1 == key).map Prod.snd, entries.eraseP fun e => e.1 == key) := by
  induction entries with
  | nil => rfl
  | cons entry entries ih =>
    obtain ⟨k, values⟩ := entry
    by_cases h : k = key
    · simp [takeFrom, h]
    · simp [takeFrom, h, ih]

/-- What removing a key gives is what the key has. -/
theorem take_fst (params : QueryParams) (key : String) : (params.take key).1 = params.get? key := by
  rw [take, takeFrom_eq, get?]

theorem entries_remove (params : QueryParams) (key : String) :
    (params.remove key).entries = params.entries.eraseP fun e => e.1 == key := by
  rw [remove, take, takeFrom_eq]

/-- A key that is removed leaves the others where they are. -/
theorem keys_remove (params : QueryParams) (key : String) :
    (params.remove key).keys = params.keys.erase key := by
  rw [keys, entries_remove, keys]
  induction params.entries with
  | nil => rfl
  | cons entry entries ih =>
    by_cases h : entry.1 = key
    · simp [h]
    · simp [h, ih]

/-! ## The values -/

theorem valuesSince_add (key value key' : String) (calls : List Call) :
    valuesSince key' (calls ++ [.add key value]) =
      if key' = key then valuesSince key' calls ++ [value] else valuesSince key' calls := by
  rw [valuesSince_concat]
  by_cases h : key' = key
  · simp [Call.resets, Call.value?, h]
  · simp [Call.resets, Call.value?, h, Ne.symm h]

theorem valuesSince_set (key value key' : String) (calls : List Call) :
    valuesSince key' (calls ++ [.set key value]) =
      if key' = key then [value] else valuesSince key' calls := by
  rw [valuesSince_concat]
  by_cases h : key' = key
  · simp [Call.resets, Call.value?, h]
  · simp [Call.resets, Call.value?, h, Ne.symm h]

theorem valuesSince_remove (key key' : String) (calls : List Call) :
    valuesSince key' (calls ++ [.remove key]) =
      if key' = key then [] else valuesSince key' calls := by
  rw [valuesSince_concat]
  by_cases h : key' = key
  · simp [Call.resets, Call.value?, h]
  · simp [Call.resets, Call.value?, h, Ne.symm h]

theorem nodup_keys_after (calls : List Call) : (after calls).keys.Nodup := by
  induction calls using List.reverseRecOn with
  | nil => exact List.nodup_nil
  | append_singleton calls call ih =>
    rw [after_concat]
    cases call with
    | add key value =>
      rw [Call.perform, keys_add]
      split
      · rwa [List.append_nil]
      · rename_i habsent
        exact ih.append (List.nodup_singleton key) (List.disjoint_singleton.mpr habsent)
    | set key value =>
      rw [Call.perform, keys_set]
      exact (ih.filter _).append (List.nodup_singleton key) (List.disjoint_singleton.mpr (by simp))
    | remove key =>
      rw [Call.perform, keys_remove]
      exact ih.erase key

/-- The keys are those that have values since they were last set or removed. -/
theorem mem_keys_after_iff (calls : List Call) (key' : String) :
    key' ∈ (after calls).keys ↔ valuesSince key' calls ≠ [] := by
  induction calls using List.reverseRecOn with
  | nil => simp [after, empty, keys, valuesSince, sinceReset]
  | append_singleton calls call ih =>
    rw [after_concat]
    cases call with
    | add key value =>
      rw [Call.perform, keys_add, valuesSince_add]
      by_cases h : key' = key
      · by_cases hmem : key ∈ (after calls).keys <;> simp [h, hmem]
      · by_cases hmem : key ∈ (after calls).keys <;> simp [h, hmem, ih]
    | set key value =>
      rw [Call.perform, keys_set, valuesSince_set]
      by_cases h : key' = key <;> simp [h, ih]
    | remove key =>
      rw [Call.perform, keys_remove, (nodup_keys_after calls).mem_erase_iff, valuesSince_remove]
      by_cases h : key' = key <;> simp [h, ih]

/-- Each key stands with its values since it was last set or removed. -/
theorem entries_after (calls : List Call) :
    (after calls).entries = (after calls).keys.map fun key => (key, valuesSince key calls) := by
  induction calls using List.reverseRecOn with
  | nil => rfl
  | append_singleton calls call ih =>
    rw [after_concat]
    cases call with
    | add key value =>
      simp only [Call.perform, keys_add, valuesSince_add]
      rw [add, ih, addTo_map (nodup_keys_after calls), List.map_append]
      congr 1
      split
      · rfl
      · rename_i habsent
        have hnone : valuesSince key calls = [] := by
          rwa [mem_keys_after_iff, not_not] at habsent
        simp [hnone]
    | set key value =>
      simp only [Call.perform, keys_set, valuesSince_set]
      have hset : ((after calls).set key value).entries =
          (after calls).entries.filter (fun e => e.1 != key) ++ [(key, [value])] := rfl
      rw [hset, ih, List.filter_map, List.map_append, List.map_singleton, if_pos rfl]
      congr 1
      refine List.map_congr_left fun key' hkey' => ?_
      have hne : key' ≠ key := by simpa using List.of_mem_filter hkey'
      rw [if_neg hne]
    | remove key =>
      simp only [Call.perform, keys_remove, valuesSince_remove]
      rw [entries_remove, ih, List.eraseP_map, List.erase_eq_eraseP']
      refine List.map_congr_left fun key' hkey' => ?_
      have hne : key' ≠ key := by
        rw [Function.comp_def, ← List.erase_eq_eraseP', (nodup_keys_after calls).mem_erase_iff]
          at hkey'
        exact hkey'.1
      rw [if_neg hne]

theorem find?_map_entry (keys : List String) (values : String → List String) (key : String) :
    ((keys.map fun k => (k, values k)).find? fun e => e.1 == key).map Prod.snd =
      if key ∈ keys then some (values key) else none := by
  induction keys with
  | nil => rfl
  | cons k keys ih =>
    by_cases h : k = key
    · simp [h]
    · rw [List.map_cons, List.find?_cons_of_neg (by simpa using h), ih]
      simp [Ne.symm h]

/-- A key has its values since it was last set or removed. -/
theorem get?_after (calls : List Call) (key : String) :
    (after calls).get? key =
      if valuesSince key calls = [] then none else some (valuesSince key calls) := by
  rw [get?, entries_after, find?_map_entry]
  simp only [mem_keys_after_iff]
  by_cases h : valuesSince key calls = [] <;> simp [h]

/-! ## The order of the keys -/

theorem introducing_add_iff {value key' : String} :
    Introducing calls (.add key value) key' ↔ key' = key ∧ valuesSince key' calls = [] := by
  rw [Introducing]
  constructor
  · rintro ⟨value', h | ⟨h, habsent⟩⟩ <;> cases h
    exact ⟨rfl, habsent⟩
  · rintro ⟨rfl, habsent⟩
    exact ⟨value, Or.inr ⟨rfl, habsent⟩⟩

theorem introducing_set_iff {value key' : String} :
    Introducing calls (.set key value) key' ↔ key' = key := by
  rw [Introducing]
  constructor
  · rintro ⟨value', h | ⟨h, -⟩⟩ <;> cases h
    rfl
  · rintro rfl
    exact ⟨value, Or.inl rfl⟩

theorem not_introducing_remove {key' : String} : ¬Introducing calls (.remove key) key' := by
  rintro ⟨value, h | ⟨h, -⟩⟩ <;> cases h

theorem IntroducedAt.lt_length (h : IntroducedAt calls key place) : place < calls.length := by
  obtain ⟨call, hcall, -⟩ := h
  exact (List.getElem?_eq_some_iff.mp hcall).1

theorem introducedAt_concat_iff :
    IntroducedAt (calls ++ [call]) key place ↔
      IntroducedAt calls key place ∨ place = calls.length ∧ Introducing calls call key := by
  rcases Nat.lt_trichotomy place calls.length with hlt | rfl | hgt
  · rw [IntroducedAt, List.getElem?_append_left hlt, List.take_append_of_le_length (by omega),
      ← IntroducedAt]
    exact ⟨Or.inl, fun h => h.resolve_right fun heq => absurd heq.1 (by omega)⟩
  · have hnot : ¬IntroducedAt calls key calls.length := fun h => absurd h.lt_length (by omega)
    rw [or_iff_right hnot]
    simp [IntroducedAt]
  · have hnot : ¬IntroducedAt calls key place := fun h => absurd h.lt_length (by omega)
    have hnot' : ¬IntroducedAt (calls ++ [call]) key place := by
      intro h
      have hlt := h.lt_length
      rw [List.length_append, List.length_singleton] at hlt
      omega
    refine iff_of_false hnot' ?_
    rintro (h | ⟨heq, -⟩)
    · exact hnot h
    · omega

/-- A call that introduces the key is the last one that does. -/
theorem lastIntroduced_of_introducing (h : Introducing calls call key) :
    LastIntroduced (calls ++ [call]) key calls.length := by
  refine ⟨introducedAt_concat_iff.mpr (Or.inr ⟨rfl, h⟩), fun place' hplace' => ?_⟩
  have hlt := hplace'.lt_length
  rw [List.length_append, List.length_singleton] at hlt
  omega

/-- A call that does not introduce the key leaves the place where it was introduced. -/
theorem LastIntroduced.concat (h : LastIntroduced calls key place)
    (hcall : ¬Introducing calls call key) : LastIntroduced (calls ++ [call]) key place := by
  refine ⟨introducedAt_concat_iff.mpr (Or.inl h.1), fun place' hplace' => ?_⟩
  rcases introducedAt_concat_iff.mp hplace' with hbefore | ⟨-, hnow⟩
  · exact h.2 place' hbefore
  · exact absurd hnow hcall

namespace InOrder

variable {keys keys' : List String}

/-- Keys that the call does not introduce stay in order. -/
theorem concat_of_sublist (h : InOrder calls keys) (hsub : keys'.Sublist keys)
    (hold : ∀ key ∈ keys', ¬Introducing calls call key) : InOrder (calls ++ [call]) keys' where
  introduced key hkey := by
    obtain ⟨place, hplace⟩ := h.introduced key (hsub.subset hkey)
    exact ⟨place, hplace.concat (hold key hkey)⟩
  ordered := by
    refine (h.ordered.sublist hsub).imp_of_mem fun {a b} ha hb => ?_
    rintro ⟨place, place', hplace, hplace', hlt⟩
    exact ⟨place, place', hplace.concat (hold a ha), hplace'.concat (hold b hb), hlt⟩

/-- A key that the call introduces comes after all that it does not. -/
theorem concat_introduced (h : InOrder calls keys) (hsub : keys'.Sublist keys)
    (hold : ∀ key ∈ keys', ¬Introducing calls call key) (hnew : Introducing calls call key) :
    InOrder (calls ++ [call]) (keys' ++ [key]) := by
  have hkept := h.concat_of_sublist hsub hold
  have hlast := lastIntroduced_of_introducing hnew
  refine ⟨fun key' hkey' => ?_, List.pairwise_append.mpr
    ⟨hkept.ordered, List.pairwise_singleton _ _, fun key' hkey' new hmem => ?_⟩⟩
  · rcases List.mem_append.mp hkey' with hkey' | hkey'
    · exact hkept.introduced key' hkey'
    · exact ⟨calls.length, List.mem_singleton.mp hkey' ▸ hlast⟩
  · obtain ⟨place, hplace⟩ := h.introduced key' (hsub.subset hkey')
    rw [List.mem_singleton.mp hmem]
    exact ⟨place, calls.length, hplace.concat (hold key' hkey'), hlast, hplace.1.lt_length⟩

end InOrder

theorem inOrder_keys_after (calls : List Call) : InOrder calls (after calls).keys := by
  induction calls using List.reverseRecOn with
  | nil => exact ⟨fun key hkey => absurd hkey List.not_mem_nil, List.Pairwise.nil⟩
  | append_singleton calls call ih =>
    rw [after_concat]
    cases call with
    | add key value =>
      rw [Call.perform, keys_add]
      split
      · rename_i hpresent
        rw [List.append_nil]
        refine ih.concat_of_sublist (List.Sublist.refl _) fun key' _ hnew => ?_
        obtain ⟨rfl, habsent⟩ := introducing_add_iff.mp hnew
        exact (mem_keys_after_iff calls key').mp hpresent habsent
      · rename_i habsent
        have hnone : valuesSince key calls = [] := by
          rwa [mem_keys_after_iff, not_not] at habsent
        refine ih.concat_introduced (List.Sublist.refl _) (fun key' hkey' hnew => ?_)
          (introducing_add_iff.mpr ⟨rfl, hnone⟩)
        exact habsent ((introducing_add_iff.mp hnew).1 ▸ hkey')
    | set key value =>
      rw [Call.perform, keys_set]
      refine ih.concat_introduced List.filter_sublist (fun key' hkey' hnew => ?_)
        (introducing_set_iff.mpr rfl)
      exact absurd (introducing_set_iff.mp hnew) (by simpa using List.of_mem_filter hkey')
    | remove key =>
      rw [Call.perform, keys_remove]
      exact ih.concat_of_sublist List.erase_sublist fun _ _ => not_introducing_remove

/-- After any calls, parameters are the ordered multimap that the calls describe. -/
theorem after_reflects (calls : List Call) : (after calls).Reflects calls where
  distinct := nodup_keys_after calls
  values_ne_nil entry hentry := by
    rw [entries_after] at hentry
    obtain ⟨key, hkey, rfl⟩ := List.mem_map.mp hentry
    exact (mem_keys_after_iff calls key).mp hkey
  size_eq := by
    rw [List.toFinset_card_of_nodup (nodup_keys_after calls), size, keys, List.length_map]
  get?_eq := get?_after calls
  entries_eq := entries_after calls
  inOrder := inOrder_keys_after calls
  take_eq := take_fst (after calls)

example :
    (after [.add "a" "1", .add "b" "2", .set "a" "3", .add "b" "4", .add "c" "5",
      .remove "c"]).entries = [("b", ["2", "4"]), ("a", ["3"])] := by
  decide

end QueryParams

end ChannelDirectory
