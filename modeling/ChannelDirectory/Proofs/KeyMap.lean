import ChannelDirectory.KeyMap
import Mathlib.Data.List.Permutation

/-!
# Laws of maps with text keys

`get?` determines a map, so every operation is described by its look-ups. Here are the
look-ups of the operations that walk over all bindings : `filter`, `mapValues`, `filterMap`,
and `ofList` over the items of a list, each bound to a key of its own.

Values that know their keys give the keys (`keys_eq_map_values`), and can be filtered by them.
-/

namespace ChannelDirectory

namespace KeyMap

variable {α β γ : Type}

/-! ## Bindings, keys and values -/

theorem get?_eq_none_iff {m : KeyMap α} {key : String} :
    m.get? key = none ↔ ∀ value, (key, value) ∉ m.entries := by
  simp only [← get?_eq_some_iff_mem, Option.eq_none_iff_forall_ne_some, ne_eq]

@[simp]
theorem contains_iff {m : KeyMap α} {key : String} :
    m.contains key = true ↔ ∃ value, m.get? key = some value := by
  simp [contains, Option.isSome_iff_exists]

theorem mem_keys_iff {m : KeyMap α} {key : String} :
    key ∈ m.keys ↔ ∃ value, m.get? key = some value := by
  simp [keys, get?_eq_some_iff_mem]

theorem get?_eq_none_iff_not_mem_keys {m : KeyMap α} {key : String} :
    m.get? key = none ↔ key ∉ m.keys := by
  rw [mem_keys_iff, ← Option.isSome_iff_exists, Option.not_isSome_iff_eq_none]

theorem mem_keys_insert {m : KeyMap α} {key key' : String} {value : α} :
    key ∈ (m.insert key' value).keys ↔ key = key' ∨ key ∈ m.keys := by
  rw [mem_keys_iff, mem_keys_iff, get?_insert]
  by_cases h : key = key' <;> simp [h]

theorem mem_keys_erase {m : KeyMap α} {key key' : String} :
    key ∈ (m.erase key').keys ↔ key ≠ key' ∧ key ∈ m.keys := by
  rw [mem_keys_iff, mem_keys_iff, get?_erase]
  by_cases h : key = key' <;> simp [h]

theorem mem_values_iff {m : KeyMap α} {value : α} :
    value ∈ m.values ↔ ∃ key, m.get? key = some value := by
  simp [values, get?_eq_some_iff_mem]

theorem keys_ascending (m : KeyMap α) : m.keys.Pairwise (· < ·) := by
  rw [keys, List.pairwise_map]
  exact m.ascending

theorem keys_nodup (m : KeyMap α) : m.keys.Nodup :=
  m.keys_ascending.imp fun {a b} (h : a < b) (e : a = b) => String.lt_irrefl b (e ▸ h)

/-- The keys of a map are determined by which keys are bound. -/
theorem keys_eq_of_mem_iff {m : KeyMap α} {n : KeyMap β} (h : ∀ key, key ∈ m.keys ↔ key ∈ n.keys) :
    m.keys = n.keys := by
  have hperm : m.keys.Perm n.keys :=
    (List.perm_ext_iff_of_nodup m.keys_nodup n.keys_nodup).mpr h
  refine hperm.eq_of_pairwise (fun a b _ _ hab hba => ?_) m.keys_ascending n.keys_ascending
  exact absurd (String.lt_trans hab hba) (String.lt_irrefl a)

/-- Where the keys are the same, a key is bound in both or in neither. -/
theorem get?_cases_of_keys {m : KeyMap α} {n : KeyMap β} (h : m.keys = n.keys) (key : String) :
    (m.get? key = none ∧ n.get? key = none) ∨
      ∃ value value', m.get? key = some value ∧ n.get? key = some value' := by
  have hbound : (∃ value, m.get? key = some value) ↔ ∃ value, n.get? key = some value := by
    rw [← mem_keys_iff, h, mem_keys_iff]
  cases hm : m.get? key with
  | none =>
    refine .inl ⟨rfl, Option.eq_none_iff_forall_not_mem.mpr fun value' hn => ?_⟩
    obtain ⟨value, hvalue⟩ := hbound.mpr ⟨value', hn⟩
    rw [hm] at hvalue
    cases hvalue
  | some value =>
    obtain ⟨value', hn⟩ := hbound.mp ⟨value, hm⟩
    exact .inr ⟨value, value', rfl, hn⟩

theorem isEmpty_iff {m : KeyMap α} : m.isEmpty = true ↔ ∀ key, m.get? key = none := by
  rw [isEmpty, List.isEmpty_iff]
  constructor
  · intro h key
    simp [get?, h, lookup]
  · intro h
    refine List.eq_nil_iff_forall_not_mem.mpr fun e he => ?_
    exact get?_eq_none_iff.mp (h e.1) e.2 he

@[simp]
theorem keys_empty : (empty : KeyMap α).keys = [] := rfl

theorem get?_foldl_erase (names : List String) (m : KeyMap α) (key : String) :
    (names.foldl (fun m name => m.erase name) m).get? key =
      if key ∈ names then none else m.get? key := by
  induction names generalizing m with
  | nil => simp
  | cons name names ih =>
    rw [List.foldl_cons, ih, get?_erase]
    by_cases h : key = name <;> simp [h]

/-! ## Operations on all bindings -/

theorem lookup_filter (keep : String × α → Bool) {key : String} :
    ∀ {entries : List (String × α)}, Ascending entries →
      lookup key (entries.filter keep) =
        (lookup key entries).filter fun value => keep (key, value)
  | [], _ => rfl
  | (k, v) :: rest, h => by
    obtain ⟨first, tail⟩ := List.pairwise_cons.mp h
    have ih := @lookup_filter keep key rest tail
    by_cases hk : key = k
    · subst hk
      -- The binding of `key` is the first one, so none is left when it is dropped.
      have rest_none : lookup key rest = none := lookup_eq_none_of_lt first
      by_cases hkeep : keep (key, v) = true
      · simp [hkeep, lookup, Option.filter]
      · simp [hkeep, lookup, ih, rest_none, Option.filter]
    · by_cases hkeep : keep (k, v) = true
      · simp [hkeep, lookup, hk, ih]
      · simp [hkeep, lookup, hk, ih]

@[simp]
theorem get?_filter (m : KeyMap α) (keep : String → α → Bool) (key : String) :
    (m.filter keep).get? key = (m.get? key).filter (keep key) :=
  lookup_filter (fun e => keep e.1 e.2) m.ascending

theorem lookup_map (f : String → α → β) (key : String) :
    ∀ entries : List (String × α),
      lookup key (entries.map fun e => (e.1, f e.1 e.2)) = (lookup key entries).map (f key)
  | [] => rfl
  | (k, v) :: rest => by
    by_cases hk : key = k
    · subst hk
      simp [lookup]
    · simp [lookup, hk, lookup_map f key rest]

@[simp]
theorem get?_mapValues (m : KeyMap α) (f : String → α → β) (key : String) :
    (m.mapValues f).get? key = (m.get? key).map (f key) :=
  lookup_map f key m.entries

@[simp]
theorem keys_mapValues (m : KeyMap α) (f : String → α → β) : (m.mapValues f).keys = m.keys := by
  simp [keys, mapValues]

/-- The bindings that a function gives a new value to. -/
def filterMap (m : KeyMap α) (f : String → α → Option β) : KeyMap β :=
  ⟨m.entries.filterMap fun e => (f e.1 e.2).map fun value => (e.1, value), by
    refine List.Pairwise.filterMap _ (fun a a' h b hb b' hb' => ?_) m.ascending
    obtain ⟨_, -, rfl⟩ := Option.map_eq_some_iff.mp hb
    obtain ⟨_, -, rfl⟩ := Option.map_eq_some_iff.mp hb'
    exact h⟩

theorem lookup_filterMap (f : String → α → Option β) {key : String} :
    ∀ {entries : List (String × α)}, Ascending entries →
      lookup key (entries.filterMap fun e => (f e.1 e.2).map fun value => (e.1, value)) =
        (lookup key entries).bind (f key)
  | [], _ => rfl
  | (k, v) :: rest, h => by
    obtain ⟨first, tail⟩ := List.pairwise_cons.mp h
    have ih := @lookup_filterMap f key rest tail
    by_cases hk : key = k
    · subst hk
      have rest_none : lookup key rest = none := lookup_eq_none_of_lt first
      cases hf : f key v with
      | none => simp [hf, lookup, ih, rest_none]
      | some w => simp [hf, lookup]
    · cases hf : f k v with
      | none => simp [hf, lookup, hk, ih]
      | some w => simp [hf, lookup, hk, ih]

@[simp]
theorem get?_filterMap (m : KeyMap α) (f : String → α → Option β) (key : String) :
    (m.filterMap f).get? key = (m.get? key).bind (f key) :=
  lookup_filterMap f m.ascending

theorem keys_eq_map_values {m : KeyMap α} {keyOf : α → String}
    (keyed : ∀ key value, m.get? key = some value → keyOf value = key) :
    m.keys = m.values.map keyOf := by
  rw [keys, values, List.map_map]
  exact List.map_congr_left fun e he => (keyed e.1 e.2 (get?_eq_some_iff_mem.mpr he)).symm

/-- Values that know their keys can be filtered by their keys. -/
theorem values_filter_key {m : KeyMap α} {keyOf : α → String}
    (keyed : ∀ key value, m.get? key = some value → keyOf value = key) (keep : String → Bool) :
    (m.filter fun key _ => keep key).values = m.values.filter fun value => keep (keyOf value) := by
  rw [values, filter, values, List.filter_map]
  refine congrArg (List.map Prod.snd) (List.filter_congr fun e he => ?_)
  rw [Function.comp_apply, keyed e.1 e.2 (get?_eq_some_iff_mem.mpr he)]

theorem values_filterMap (m : KeyMap α) (f : String → α → Option β) :
    (m.filterMap f).values = m.entries.filterMap fun e => f e.1 e.2 := by
  rw [values, filterMap, List.map_filterMap]
  refine congrArg (List.filterMap · m.entries) (funext fun e => ?_)
  rw [Option.map_map]
  exact Option.map_id'

/-! ## Maps of the items of a list -/

variable {keyOf : γ → String}

theorem get?_ofList_append (bindings more : List (String × α)) (key : String) :
    (ofList (bindings ++ more)).get? key =
      ((ofList more).get? key).or ((ofList bindings).get? key) := by
  simp [get?_ofList, List.find?_append, Option.map_or]

theorem get?_ofList_cons (e : String × α) (bindings : List (String × α)) (key : String) :
    (ofList (e :: bindings)).get? key =
      ((ofList bindings).get? key).or (if key = e.1 then some e.2 else none) := by
  rw [← List.singleton_append, get?_ofList_append]
  rfl

theorem get?_ofList_eq_none_iff {bindings : List (String × α)} {key : String} :
    (ofList bindings).get? key = none ↔ ∀ e ∈ bindings, e.1 ≠ key := by
  rw [get?_ofList, Option.map_eq_none_iff, List.find?_eq_none]
  simp [eq_comm]

theorem mem_of_get?_ofList {bindings : List (String × α)} {key : String} {value : α}
    (h : (ofList bindings).get? key = some value) : (key, value) ∈ bindings := by
  rw [get?_ofList] at h
  obtain ⟨e, he, rfl⟩ := Option.map_eq_some_iff.mp h
  have hkey : key = e.1 := by simpa using List.find?_some he
  rw [hkey]
  exact List.mem_reverse.mp (List.mem_of_find?_eq_some he)

/-- Of a list with one binding for each key, every binding is found. -/
theorem get?_ofList_of_mem {bindings : List (String × α)} (distinct : (bindings.map Prod.fst).Nodup)
    {key : String} {value : α} (h : (key, value) ∈ bindings) :
    (ofList bindings).get? key = some value := by
  cases hget : (ofList bindings).get? key with
  | none => exact absurd rfl (get?_ofList_eq_none_iff.mp hget _ h)
  | some other =>
    have e := List.inj_on_of_nodup_map distinct (mem_of_get?_ofList hget) h rfl
    rw [(Prod.mk.inj e).2]

theorem mem_of_get?_ofList_map {items : List γ} {f : γ → α} {key : String} {value : α}
    (h : (ofList (items.map fun item => (keyOf item, f item))).get? key = some value) :
    ∃ item ∈ items, keyOf item = key ∧ f item = value := by
  obtain ⟨item, hmem, e⟩ := List.mem_map.mp (mem_of_get?_ofList h)
  exact ⟨item, hmem, (Prod.mk.inj e).1, (Prod.mk.inj e).2⟩

/-- Of the items of one key, the last one is found. -/
theorem get?_ofList_map_self (items : List α) (keyOf : α → String) (key : String) :
    (ofList (items.map fun item => (keyOf item, item))).get? key =
      (items.filter fun item => keyOf item = key).getLast? := by
  rw [get?_ofList, ← List.map_reverse, List.find?_map, Option.map_map,
    List.getLast?_eq_head?_reverse, ← List.filter_reverse, List.head?_filter]
  simp only [Function.comp_def, Option.map_id', eq_comm]

/-- Items that are bound to their own keys give the keys. -/
theorem keys_ofList_map_self (items : List α) (keyOf : α → String) :
    (ofList (items.map fun item => (keyOf item, item))).keys =
      (ofList (items.map fun item => (keyOf item, item))).values.map keyOf := by
  refine keys_eq_map_values fun key value hget => ?_
  obtain ⟨_, -, hkey, rfl⟩ := mem_of_get?_ofList_map hget
  exact hkey

/-- A map is the map of its bindings. -/
@[simp]
theorem get?_ofList_entries (m : KeyMap α) (key : String) :
    (ofList m.entries).get? key = m.get? key := by
  refine Option.ext fun value => ?_
  constructor
  · intro h
    exact get?_eq_some_iff_mem.mpr (mem_of_get?_ofList h)
  · intro h
    exact get?_ofList_of_mem m.keys_nodup (get?_eq_some_iff_mem.mp h)

theorem ofList_entries (m : KeyMap α) : ofList m.entries = m :=
  ext_get? m.get?_ofList_entries

/-- The bindings of one map, with those of another one in place of its own. -/
def overridden (m n : KeyMap α) : KeyMap α :=
  ofList (m.entries ++ n.entries)

@[simp]
theorem get?_overridden (m n : KeyMap α) (key : String) :
    (m.overridden n).get? key = (n.get? key).or (m.get? key) := by
  rw [overridden, get?_ofList_append, get?_ofList_entries, get?_ofList_entries]

theorem mem_of_mem_entries_ofList {bindings : List (String × α)} {e : String × α}
    (h : e ∈ (ofList bindings).entries) : e ∈ bindings :=
  mem_of_get?_ofList (get?_eq_some_iff_mem.mpr h)

end KeyMap

namespace KeySet

theorem get?_foldl_add (names : List String) (s : KeySet) (key : String) :
    (names.foldl add s).get? key = if key ∈ names then some () else s.get? key := by
  induction names generalizing s with
  | nil => simp
  | cons name names ih =>
    rw [List.foldl_cons, ih, add, KeyMap.get?_insert]
    by_cases h : key = name <;> simp [h]

theorem mem_keys_ofList {names : List String} {key : String} :
    key ∈ (ofList names).keys ↔ key ∈ names := by
  rw [KeyMap.mem_keys_iff, ofList, get?_foldl_add]
  by_cases h : key ∈ names <;> simp [h]

end KeySet

end ChannelDirectory
