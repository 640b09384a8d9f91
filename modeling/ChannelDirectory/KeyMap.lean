/-!
# Maps with text keys in order

`KeyMap α` is a finite map from texts to `α`, kept as a list of bindings in strictly
ascending code-point order of the keys. The order is part of the type, so two maps with
the same bindings are equal (`KeyMap.ext_get?`), and every answer that lists a map lists
it by key.

The view of a map is `get?`. Each operation has its equation through this view:
`get?_insert`, `get?_erase`, `get?_ofList`.
-/

namespace ChannelDirectory

/-- Bindings in strictly ascending order of their keys. -/
abbrev Ascending {α : Type} (entries : List (String × α)) : Prop :=
  entries.Pairwise fun a b => a.1 < b.1

/-- A finite map from texts, as its bindings in ascending order of keys. -/
structure KeyMap (α : Type) where
  entries : List (String × α)
  ascending : Ascending entries

namespace KeyMap

variable {α β : Type}

/-- The order of texts is total. -/
theorem lt_of_not_lt_of_ne {a b : String} (h : ¬ a < b) (ne : a ≠ b) : b < a := by
  rcases String.le_total a b with hab | hba
  · exact absurd (String.le_antisymm hab (String.not_lt.mp h)) ne
  · exact String.not_le.mp fun hab => ne (String.le_antisymm hab hba)

/-- Binds a key in a list of bindings, at its place in the order. -/
def insertEntry (key : String) (value : α) : List (String × α) → List (String × α)
  | [] => [(key, value)]
  | (k, v) :: rest =>
    if key < k then (key, value) :: (k, v) :: rest
    else if key = k then (key, value) :: rest
    else (k, v) :: insertEntry key value rest

/-- The value bound to a key in a list of bindings. -/
def lookup (key : String) : List (String × α) → Option α
  | [] => none
  | (k, v) :: rest => if key = k then some v else lookup key rest

/-- After an insertion there is the new entry, and otherwise only old ones. -/
theorem mem_insertEntry {key : String} {value : α} {e : String × α} :
    ∀ {entries : List (String × α)},
      e ∈ insertEntry key value entries → e = (key, value) ∨ e ∈ entries
  | [], h => by simpa [insertEntry] using h
  | (k, v) :: rest, h => by
    unfold insertEntry at h
    split at h
    · simpa using h
    · split at h
      · rcases List.mem_cons.mp h with h | h
        · exact Or.inl h
        · exact Or.inr (List.mem_cons_of_mem _ h)
      · rcases List.mem_cons.mp h with h | h
        · exact Or.inr (by simp [h])
        · rcases mem_insertEntry h with h | h
          · exact Or.inl h
          · exact Or.inr (List.mem_cons_of_mem _ h)

/-- An insertion keeps the keys in order. -/
theorem ascending_insertEntry (key : String) (value : α) :
    ∀ {entries : List (String × α)}, Ascending entries →
      Ascending (insertEntry key value entries)
  | [], _ => by simp [insertEntry, Ascending]
  | (k, v) :: rest, h => by
    obtain ⟨first, tail⟩ := List.pairwise_cons.mp h
    unfold insertEntry
    split
    · rename_i lt
      refine List.pairwise_cons.mpr ⟨fun e he => ?_, h⟩
      rcases List.mem_cons.mp he with rfl | he
      · exact lt
      · exact String.lt_trans lt (first e he)
    · rename_i nlt
      split
      · rename_i eq
        subst eq
        exact List.pairwise_cons.mpr ⟨first, tail⟩
      · rename_i ne
        refine List.pairwise_cons.mpr ⟨fun e he => ?_, ascending_insertEntry key value tail⟩
        rcases mem_insertEntry he with rfl | he
        · exact lt_of_not_lt_of_ne nlt ne
        · exact first e he

/-- A key below all others is not found. -/
theorem lookup_eq_none_of_lt {key : String} :
    ∀ {entries : List (String × α)}, (∀ e ∈ entries, key < e.1) → lookup key entries = none
  | [], _ => rfl
  | (k, v) :: rest, h => by
    have hk : key < k := h (k, v) List.mem_cons_self
    have ne : key ≠ k := fun eq => String.lt_irrefl k (eq ▸ hk)
    rw [lookup, if_neg ne, lookup_eq_none_of_lt fun e he => h e (List.mem_cons_of_mem _ he)]

theorem lookup_insertEntry (key key' : String) (value : α) :
    ∀ {entries : List (String × α)},
      lookup key' (insertEntry key value entries) =
        if key' = key then some value else lookup key' entries
  | [] => rfl
  | (k, v) :: rest => by
    unfold insertEntry
    split
    · rfl
    · split
      · rename_i eq
        subst eq
        by_cases h : key' = key <;> simp [lookup, h]
      · rename_i ne
        by_cases h : key' = k
        · subst h
          simp [lookup, Ne.symm ne]
        · simp [lookup, h, lookup_insertEntry key key' value]

theorem lookup_filter_ne (key key' : String) :
    ∀ {entries : List (String × α)},
      lookup key' (entries.filter fun e => e.1 != key) =
        if key' = key then none else lookup key' entries
  | [] => by simp [lookup]
  | (k, v) :: rest => by
    have ih := @lookup_filter_ne key key' rest
    by_cases hk : k = key
    · subst hk
      rw [List.filter_cons_of_neg (by simp), ih]
      by_cases h : key' = k <;> simp [lookup, h]
    · rw [List.filter_cons_of_pos (by simpa using hk), lookup, lookup, ih]
      by_cases h : key' = k
      · subst h
        simp [hk]
      · simp [h]

theorem mem_iff_lookup {key : String} {value : α} :
    ∀ {entries : List (String × α)}, Ascending entries →
      ((key, value) ∈ entries ↔ lookup key entries = some value)
  | [], _ => by simp [lookup]
  | (k, v) :: rest, h => by
    obtain ⟨first, tail⟩ := List.pairwise_cons.mp h
    by_cases hk : key = k
    · subst hk
      have none : (key, value) ∉ rest := fun mem => String.lt_irrefl key (first _ mem)
      simp [lookup, none, eq_comm]
    · simp [lookup, hk, mem_iff_lookup tail]

/-- Lists of bindings in order with the same look-ups are equal. -/
theorem eq_of_lookup_eq :
    ∀ {l m : List (String × α)}, Ascending l → Ascending m →
      (∀ key, lookup key l = lookup key m) → l = m
  | [], [], _, _, _ => rfl
  | [], (k, v) :: rest, _, _, h => by simpa [lookup] using h k
  | (k, v) :: rest, [], _, _, h => by simpa [lookup] using h k
  | (k, v) :: l, (k', v') :: m, hl, hm, h => by
    obtain ⟨firstl, taill⟩ := List.pairwise_cons.mp hl
    obtain ⟨firstm, tailm⟩ := List.pairwise_cons.mp hm
    have keys : k = k' := by
      have memk : (k, v) ∈ (k', v') :: m := (mem_iff_lookup hm).mpr (by rw [← h]; simp [lookup])
      have memk' : (k', v') ∈ (k, v) :: l := (mem_iff_lookup hl).mpr (by rw [h]; simp [lookup])
      rcases List.mem_cons.mp memk with e | memk
      · exact congrArg Prod.fst e
      · rcases List.mem_cons.mp memk' with e | memk'
        · exact (congrArg Prod.fst e).symm
        · exact absurd (String.lt_trans (firstm _ memk) (firstl _ memk')) (String.lt_irrefl _)
    subst keys
    have value : v = v' := by simpa [lookup] using h k
    subst value
    congr 1
    refine eq_of_lookup_eq taill tailm fun key => ?_
    by_cases hk : key = k
    · subst hk
      rw [lookup_eq_none_of_lt firstl, lookup_eq_none_of_lt firstm]
    · simpa [lookup, hk] using h key

/-- The map without bindings. -/
def empty : KeyMap α := ⟨[], List.Pairwise.nil⟩

instance : Inhabited (KeyMap α) := ⟨empty⟩

instance [DecidableEq α] : DecidableEq (KeyMap α) := fun m n =>
  if h : m.entries = n.entries then isTrue (by cases m; cases n; congr)
  else isFalse fun e => h (congrArg entries e)

/-- The value bound to a key. -/
def get? (m : KeyMap α) (key : String) : Option α := lookup key m.entries

/-- The key is bound. -/
def contains (m : KeyMap α) (key : String) : Bool := (m.get? key).isSome

/-- The keys in ascending order. -/
def keys (m : KeyMap α) : List String := m.entries.map Prod.fst

/-- The values in the order of their keys. -/
def values (m : KeyMap α) : List α := m.entries.map Prod.snd

/-- The number of keys. -/
def size (m : KeyMap α) : Nat := m.entries.length

/-- No key is bound. -/
def isEmpty (m : KeyMap α) : Bool := m.entries.isEmpty

/-- Binds a key, in place of what it was bound to. -/
def insert (m : KeyMap α) (key : String) (value : α) : KeyMap α :=
  ⟨insertEntry key value m.entries, ascending_insertEntry key value m.ascending⟩

/-- Unbinds a key. -/
def erase (m : KeyMap α) (key : String) : KeyMap α :=
  ⟨m.entries.filter fun e => e.1 != key, m.ascending.filter _⟩

/-- The bindings that `keep` holds of. -/
def filter (m : KeyMap α) (keep : String → α → Bool) : KeyMap α :=
  ⟨m.entries.filter fun e => keep e.1 e.2, m.ascending.filter _⟩

/-- The same keys with other values. -/
def mapValues (m : KeyMap α) (f : String → α → β) : KeyMap β :=
  ⟨m.entries.map fun e => (e.1, f e.1 e.2), by
    simpa [Ascending, List.pairwise_map] using m.ascending⟩

/-- The map of a list of bindings; of two bindings of one key the later one counts. -/
def ofList (bindings : List (String × α)) : KeyMap α :=
  bindings.foldl (fun m e => m.insert e.1 e.2) empty

@[simp] theorem get?_empty (key : String) : (empty : KeyMap α).get? key = none := rfl

@[simp] theorem get?_insert (m : KeyMap α) (key key' : String) (value : α) :
    (m.insert key value).get? key' = if key' = key then some value else m.get? key' :=
  lookup_insertEntry key key' value

@[simp] theorem get?_erase (m : KeyMap α) (key key' : String) :
    (m.erase key).get? key' = if key' = key then none else m.get? key' :=
  lookup_filter_ne key key'

theorem get?_eq_some_iff_mem {m : KeyMap α} {key : String} {value : α} :
    m.get? key = some value ↔ (key, value) ∈ m.entries :=
  (mem_iff_lookup m.ascending).symm

/-- Maps with the same look-ups are equal. -/
theorem ext_get? {m n : KeyMap α} (h : ∀ key, m.get? key = n.get? key) : m = n := by
  have e := eq_of_lookup_eq m.ascending n.ascending h
  cases m
  cases n
  cases e
  rfl

/-- Of the bindings of one key that are inserted the last counts. -/
theorem get?_foldl_insert (bindings : List (String × α)) (m : KeyMap α) (key : String) :
    (bindings.foldl (fun m e => m.insert e.1 e.2) m).get? key =
      ((bindings.reverse.find? fun e => key = e.1).map Prod.snd).or (m.get? key) := by
  induction bindings generalizing m with
  | nil => simp
  | cons e rest ih =>
    rw [List.foldl_cons, ih, List.reverse_cons, List.find?_append]
    cases rest.reverse.find? (fun e => key = e.1) with
    | some _ => simp
    | none => by_cases h : key = e.1 <;> simp [h]

/-- The last binding of a key counts. -/
theorem get?_ofList (bindings : List (String × α)) (key : String) :
    (ofList bindings).get? key = (bindings.reverse.find? fun e => key = e.1).map Prod.snd := by
  simp [ofList, get?_foldl_insert]

end KeyMap

/-- A finite set of texts. -/
abbrev KeySet := KeyMap Unit

namespace KeySet

/-- The set with one more member. -/
def add (s : KeySet) (key : String) : KeySet := s.insert key ()

/-- The set of the members of a list. -/
def ofList (keys : List String) : KeySet := keys.foldl add KeyMap.empty

end KeySet

end ChannelDirectory
