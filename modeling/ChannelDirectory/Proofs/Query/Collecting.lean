import Mathlib.Data.List.Nodup
import Mathlib.Data.List.Induction
import Mathlib.Order.Lattice
import ChannelDirectory.Proofs.Query.Meaning

/-!
# What parameters collect

Parameters collect pairs under their raw keys, in the order in which these first appear
(`QueryParams.entries_ofPairs`). The compiler takes one entry after another.
`Query.exists_compile_iff` says which pairs it accepts, and `Query.paged_compile` what page the
query asks for : of several entries for one paging key the last one counts, and within an entry the
greatest number or the first value.
-/

namespace ChannelDirectory

/-! ## Entries -/

namespace QueryParams

/-- The values given under one raw key, in order. -/
def valuesUnder (pairs : List (String × String)) (raw : String) : List String :=
  (pairs.filter fun pair => pair.1 = raw).map Prod.snd

variable {pairs : List (String × String)} {raw : String}

theorem ofPairs_append (pairs : List (String × String)) (pair : String × String) :
    ofPairs (pairs ++ [pair]) = (ofPairs pairs).add pair.1 pair.2 := by
  rw [ofPairs, List.foldl_append]
  rfl

theorem valuesUnder_append (pairs : List (String × String)) (pair : String × String)
    (raw : String) :
    valuesUnder (pairs ++ [pair]) raw =
      if raw = pair.1 then valuesUnder pairs raw ++ [pair.2] else valuesUnder pairs raw := by
  by_cases h : raw = pair.1
  · simp [valuesUnder, h]
  · simp [valuesUnder, h, Ne.symm h]

theorem valuesUnder_eq_nil (h : raw ∉ pairs.map Prod.fst) : valuesUnder pairs raw = [] := by
  rw [valuesUnder, List.map_eq_nil_iff, List.filter_eq_nil_iff]
  intro pair hpair hraw
  exact h (List.mem_map.mpr ⟨pair, hpair, of_decide_eq_true hraw⟩)

/-- Adding a value changes the entry of its key, or appends one. -/
theorem addTo_map {keys : List String} (distinct : keys.Nodup) (values : String → List String)
    (key value : String) :
    addTo key value (keys.map fun k => (k, values k)) =
      (keys.map fun k => (k, if k = key then values k ++ [value] else values k)) ++
        if key ∈ keys then [] else [(key, [value])] := by
  induction keys with
  | nil => rfl
  | cons k keys ih =>
    obtain ⟨hk, distinct⟩ := List.nodup_cons.mp distinct
    rw [List.map_cons, addTo, List.map_cons]
    by_cases h : k = key
    · subst h
      have hothers : (keys.map fun k' => (k', if k' = k then values k' ++ [value] else values k')) =
          keys.map fun k' => (k', values k') := by
        refine List.map_congr_left fun k' hk' => ?_
        rw [if_neg]
        rintro rfl
        exact hk hk'
      rw [if_pos rfl, if_pos rfl, if_pos List.mem_cons_self, hothers, List.append_nil]
    · rw [if_neg h, if_neg h, ih distinct]
      simp [Ne.symm h]

theorem eraseDups_concat (keys : List String) (key : String) :
    (keys ++ [key]).eraseDups = keys.eraseDups ++ if key ∈ keys then [] else [key] := by
  rw [List.eraseDups_append]
  by_cases h : key ∈ keys
  · simp [List.removeAll, h]
  · have hlast : [key].removeAll keys = [key] := by simp [List.removeAll, h]
    rw [hlast, if_neg h, List.eraseDups_cons, List.filter_nil, List.eraseDups_nil]

theorem nodup_eraseDups (keys : List String) : keys.eraseDups.Nodup := by
  induction keys using List.reverseRecOn with
  | nil => exact List.nodup_nil
  | append_singleton keys key ih =>
    rw [eraseDups_concat]
    split
    · rwa [List.append_nil]
    · rename_i h
      exact ih.append (List.nodup_singleton key)
        (List.disjoint_singleton.mpr (mt List.mem_eraseDups.mp h))

/-- There is one entry for each raw key, in the order in which these first appear, with all values
given under it. -/
theorem entries_ofPairs (pairs : List (String × String)) :
    (ofPairs pairs).entries =
      (pairs.map Prod.fst).eraseDups.map fun raw => (raw, valuesUnder pairs raw) := by
  induction pairs using List.reverseRecOn with
  | nil => rfl
  | append_singleton pairs pair ih =>
    rw [ofPairs_append, add, ih, addTo_map (nodup_eraseDups _), List.map_append, List.map_singleton,
      eraseDups_concat, List.map_append]
    simp only [valuesUnder_append, List.mem_eraseDups]
    congr 1
    split
    · rfl
    · rename_i h
      rw [List.map_singleton, if_pos rfl, valuesUnder_eq_nil h, List.nil_append]

theorem mem_valuesUnder {pair : String × String} (h : pair ∈ pairs) :
    pair.2 ∈ valuesUnder pairs pair.1 :=
  List.mem_map.mpr ⟨pair, List.mem_filter.mpr ⟨h, decide_eq_true rfl⟩, rfl⟩

theorem forall_mem_entries_iff {P : String × List String → Prop} :
    (∀ entry ∈ (ofPairs pairs).entries, P entry) ↔
      ∀ pair ∈ pairs, P (pair.1, valuesUnder pairs pair.1) := by
  simp only [entries_ofPairs, List.forall_mem_map, List.mem_eraseDups]

/-- The entries of some keys are what is collected from the pairs with these keys. -/
theorem filter_entries_ofPairs (pairs : List (String × String)) (q : String → Bool) :
    (ofPairs pairs).entries.filter (fun entry => q entry.1) =
      (ofPairs (pairs.filter fun pair => q pair.1)).entries := by
  have hadd : ∀ (key value : String) (entries : List (String × List String)),
      (addTo key value entries).filter (fun entry => q entry.1) =
        if q key then addTo key value (entries.filter fun entry => q entry.1)
        else entries.filter fun entry => q entry.1 := by
    intro key value entries
    induction entries with
    | nil => cases h : q key <;> simp [addTo, h]
    | cons entry entries ih =>
      obtain ⟨k, values⟩ := entry
      by_cases h : k = key
      · subst h
        cases hq : q k <;> simp [addTo, hq]
      · cases hq : q key <;> cases hk : q k <;> simp [addTo, h, hq, hk, ih]
  induction pairs using List.reverseRecOn with
  | nil => rfl
  | append_singleton pairs pair ih =>
    rw [ofPairs_append, add, hadd, ih, List.filter_append]
    cases hq : q pair.1
    · simp [hq]
    · simp [hq, ofPairs_append, add]

/-- Keys that are told apart after a change of all keys are collected as before. -/
theorem entries_ofPairs_map (f : String → String)
    (injective : ∀ pair ∈ pairs, ∀ pair' ∈ pairs, f pair'.1 = f pair.1 → pair'.1 = pair.1) :
    (ofPairs (pairs.map fun pair => (f pair.1, pair.2))).entries =
      (ofPairs pairs).entries.map fun entry => (f entry.1, entry.2) := by
  have hadd : ∀ (key value : String) (entries : List (String × List String)),
      (∀ entry ∈ entries, f entry.1 = f key → entry.1 = key) →
        addTo (f key) value (entries.map fun entry => (f entry.1, entry.2)) =
          (addTo key value entries).map fun entry => (f entry.1, entry.2) := by
    intro key value entries h
    induction entries with
    | nil => rfl
    | cons entry entries ih =>
      obtain ⟨hfirst, h⟩ := List.forall_mem_cons.mp h
      by_cases heq : entry.1 = key
      · simp [addTo, heq]
      · simp [addTo, heq, mt hfirst heq, ih h]
  induction pairs using List.reverseRecOn with
  | nil => rfl
  | append_singleton pairs pair ih =>
    have hinit := ih fun p hp p' hp' => injective p (List.mem_append_left _ hp) p'
      (List.mem_append_left _ hp')
    rw [List.map_append, List.map_singleton, ofPairs_append, add, hinit, ofPairs_append, add]
    refine hadd pair.1 pair.2 _ ?_
    rw [forall_mem_entries_iff]
    exact fun p hp => injective pair (by simp) p (List.mem_append_left _ hp)

/-- Pairs with one raw key make one entry. -/
theorem entries_ofPairs_of_one (hne : pairs ≠ []) (h : ∀ pair ∈ pairs, pair.1 = raw) :
    (ofPairs pairs).entries = [(raw, pairs.map Prod.snd)] := by
  have hkeys : (pairs.map Prod.fst).eraseDups = [raw] := by
    obtain ⟨pair, rest, rfl⟩ := List.exists_cons_of_ne_nil hne
    obtain ⟨hfirst, hrest⟩ := List.forall_mem_cons.mp h
    have hnone : (rest.map Prod.fst).filter (fun k => !k == pair.1) = [] := by
      rw [List.filter_eq_nil_iff, List.forall_mem_map]
      intro p hp
      rw [hrest p hp, hfirst]
      simp
    rw [List.map_cons, List.eraseDups_cons, hnone, hfirst]
    rfl
  have hvalues : valuesUnder pairs raw = pairs.map Prod.snd := by
    rw [valuesUnder, List.filter_eq_self.mpr fun pair hpair => decide_eq_true (h pair hpair)]
  rw [entries_ofPairs, hkeys, List.map_singleton, hvalues]

end QueryParams

namespace Query

open QueryParams

/-! ## Numbers -/

/-- The integer that a value stands for. -/
def number? (value : String) : Option Int :=
  integer? (Text.trimChars value.toList)

/-- The greatest number among values. -/
def greatest? (values : List String) : Option Int :=
  (values.filterMap number?).max?

/-- What the first value is when it is trimmed. -/
def firstTrimmed? (values : List String) : Option String :=
  values.head?.map Text.trim

/-- The first value says `true`, in letters of any case. -/
def firstSwitch? (values : List String) : Option Bool :=
  values.head?.map fun value => (Text.trimChars value.toList).map Char.toLower == "true".toList

theorem greatest_eq_ok_iff {key : String} {best found : Option Int} {values : List String} :
    greatest key best values = .ok found ↔
      (∀ value ∈ values, (number? value).isSome) ∧
        found = (best.toList ++ values.filterMap number?).max? := by
  induction values generalizing best with
  | nil =>
    have hbest : (best.toList ++ ([] : List String).filterMap number?).max? = best := by
      cases best <;> rfl
    rw [greatest, hbest, Except.ok.injEq, eq_comm]
    exact (and_iff_right fun value hvalue => absurd hvalue List.not_mem_nil).symm
  | cons value values ih =>
    cases hvalue : number? value with
    | none =>
      have hfails : greatest key best (value :: values) = .error (.invalidNumber key value) := by
        rw [number?] at hvalue
        rw [greatest, hvalue]
      simp [hfails, hvalue]
    | some n =>
      rw [List.forall_mem_cons, hvalue, List.filterMap_cons_some hvalue]
      rw [number?] at hvalue
      cases best with
      | none =>
        have hgoes : greatest key none (value :: values) = greatest key (some n) values := by
          simp only [greatest, hvalue]
        rw [hgoes, ih]
        exact and_congr_left fun _ => (and_iff_right rfl).symm
      | some m =>
        have hgoes : greatest key (some m) (value :: values) =
            greatest key (some (if m < n then n else m)) values := by
          simp only [greatest, hvalue]
        have hmax : (if m < n then n else m) = max m n := by
          rw [max_def]
          split <;> split <;> omega
        rw [hgoes, ih, hmax]
        simp only [Option.toList_some, List.singleton_append, List.max?_cons', List.foldl_cons,
          Option.isSome_some, true_and]

/-! ## What is accepted -/

/-- The entry has a key, and numbers for a key that asks for them. -/
def Accepts (entry : String × List String) : Prop :=
  (Key.ofText entry.1).name ≠ "" ∧
    ((Key.ofText entry.1).name ∈ ["~size", "~from"] → ∀ value ∈ entry.2, (number? value).isSome)

/-- A number is read from the values of a key if all of them are numbers. -/
theorem exists_greatest_iff {key : String} {values : List String}
    {f : Option Int → Draft} :
    (∃ draft', (do let n ← greatest key none values; .ok (f n) : Except QueryError Draft) =
        .ok draft') ↔ ∀ value ∈ values, (number? value).isSome := by
  cases hgreatest : greatest key none values with
  | error e =>
    constructor
    · rintro ⟨draft', ⟨⟩⟩
    · intro h
      rw [greatest_eq_ok_iff.mpr ⟨h, rfl⟩] at hgreatest
      cases hgreatest
  | ok n => exact ⟨fun _ => (greatest_eq_ok_iff.mp hgreatest).1, fun _ => ⟨f n, rfl⟩⟩

theorem exists_addEntry_iff (draft : Draft) {entry : String × List String} :
    (∃ draft', draft.addEntry entry = .ok draft') ↔ Accepts entry := by
  dsimp only [Draft.addEntry, Accepts]
  generalize Key.ofText entry.1 = key
  split_ifs with hempty hname htag hsize hfrom hafter htotal hnegated
  · simp [hempty]
  · simp [hname]
  · simp [htag]
  · rw [exists_greatest_iff]
    simp [hsize]
  · rw [exists_greatest_iff]
    simp [hfrom]
  · cases entry.2 <;> simp [hafter]
  · cases entry.2 <;> simp [htotal]
  · simp [hempty, hsize, hfrom]
  · simp [hempty, hsize, hfrom]

theorem exists_foldlM_addEntry_iff {draft : Draft} {entries : List (String × List String)} :
    (∃ draft', entries.foldlM Draft.addEntry draft = .ok draft') ↔
      ∀ entry ∈ entries, Accepts entry := by
  induction entries generalizing draft with
  | nil => exact ⟨fun _ entry h => absurd h List.not_mem_nil, fun _ => ⟨draft, rfl⟩⟩
  | cons entry entries ih =>
    rw [List.forall_mem_cons, ← exists_addEntry_iff draft, List.foldlM_cons]
    cases hentry : draft.addEntry entry with
    | error e =>
      constructor
      · rintro ⟨draft', ⟨⟩⟩
      · rintro ⟨⟨draft', ⟨⟩⟩, -⟩
    | ok next => exact ih.trans (and_iff_right ⟨next, rfl⟩).symm

/-- Pairs compile exactly if each of them could be given alone. -/
theorem exists_compile_iff {pairs : List (String × String)} :
    (∃ query, compile (.ofPairs pairs) = .ok query) ↔
      ∀ pair ∈ pairs, Accepts (pair.1, [pair.2]) := by
  have hcompile : (∃ query, compile (.ofPairs pairs) = .ok query) ↔
      ∃ draft, (ofPairs pairs).entries.foldlM Draft.addEntry {} = .ok draft := by
    rw [compile]
    cases (ofPairs pairs).entries.foldlM Draft.addEntry {} with
    | error e => exact ⟨by rintro ⟨_, ⟨⟩⟩, by rintro ⟨_, ⟨⟩⟩⟩
    | ok draft => exact ⟨fun _ => ⟨draft, rfl⟩, fun _ => ⟨draft.finish, rfl⟩⟩
  rw [hcompile, exists_foldlM_addEntry_iff, forall_mem_entries_iff]
  constructor
  · intro h pair hpair
    refine ⟨(h pair hpair).1, fun hnumber value hmem => ?_⟩
    rw [List.mem_singleton.mp hmem]
    exact (h pair hpair).2 hnumber _ (mem_valuesUnder hpair)
  · intro h pair hpair
    refine ⟨(h pair hpair).1, fun hnumber value hmem => ?_⟩
    obtain ⟨pair', hpair', rfl⟩ := List.mem_map.mp hmem
    obtain ⟨hmem', hsame⟩ := List.mem_filter.mp hpair'
    have hkey : pair'.1 = pair.1 := of_decide_eq_true hsame
    exact (h pair' hmem').2 (hkey ▸ hnumber) _ (List.mem_singleton_self _)

/-! ## The page -/

/-- What the last entry under a name says. -/
def lastUnder {β : Type} (name : String) (read : List String → Option β)
    (entries : List (String × List String)) : Option β :=
  (entries.filter fun entry => (Key.ofText entry.1).name = name).reverse.findSome? fun entry =>
    read entry.2

theorem lastUnder_cons {β : Type} (name : String) (read : List String → Option β)
    (entry : String × List String) (entries : List (String × List String)) :
    lastUnder name read (entry :: entries) =
      (lastUnder name read entries).or (lastUnder name read [entry]) := by
  by_cases h : (Key.ofText entry.1).name = name
  · simp [lastUnder, h]
  · simp [lastUnder, h]

theorem lastUnder_singleton {β : Type} (name : String) (read : List String → Option β)
    (entry : String × List String) :
    lastUnder name read [entry] =
      if (Key.ofText entry.1).name = name then read entry.2 else none := by
  by_cases h : (Key.ofText entry.1).name = name
  · cases hread : read entry.2 <;> simp [lastUnder, h, hread]
  · simp [lastUnder, h]

/-- The draft has the page of another one, as far as entries do not say otherwise. -/
structure Draft.PagedBy (draft' draft : Draft) (entries : List (String × List String)) : Prop where
  size : draft'.size = (lastUnder "~size" greatest? entries).or draft.size
  offset : draft'.offset = (lastUnder "~from" greatest? entries).or draft.offset
  searchAfter : draft'.searchAfter =
    (lastUnder "~search_after" firstTrimmed? entries).or draft.searchAfter
  trackTotal : draft'.trackTotal =
    (lastUnder "~track_total_hits" firstSwitch? entries).getD draft.trackTotal

/-- A number that is read is the greatest one. -/
theorem eq_greatest?_of_ok {key : String} {values : List String} {f : Option Int → Draft}
    {draft : Draft}
    (h : (do let n ← greatest key none values; .ok (f n) : Except QueryError Draft) = .ok draft) :
    draft = f (greatest? values) := by
  cases hgreatest : greatest key none values with
  | error e =>
    rw [hgreatest] at h
    cases h
  | ok n =>
    rw [hgreatest] at h
    obtain rfl : n = greatest? values := (greatest_eq_ok_iff.mp hgreatest).2
    exact (Except.ok.inj h).symm

theorem pagedBy_addEntry {draft draft' : Draft} {entry : String × List String}
    (h : draft.addEntry entry = .ok draft') : draft'.PagedBy draft [entry] := by
  obtain ⟨raw, values⟩ := entry
  dsimp only [Draft.addEntry] at h
  generalize hkey : Key.ofText raw = key at h
  split_ifs at h with hempty hname htag hsize hfrom hafter htotal hnegated
  · cases h
    constructor <;> simp [lastUnder_singleton, hkey, hname, Draft.require]
  · cases h
    constructor <;> simp [lastUnder_singleton, hkey, htag, Draft.require]
  · obtain rfl := eq_greatest?_of_ok h
    constructor <;> simp [lastUnder_singleton, hkey, hsize]
  · obtain rfl := eq_greatest?_of_ok h
    constructor <;> simp [lastUnder_singleton, hkey, hfrom]
  · cases values <;> cases h <;> constructor <;>
      simp [lastUnder_singleton, hkey, hafter, firstTrimmed?]
  · cases values <;> cases h <;> constructor <;>
      simp [lastUnder_singleton, hkey, htotal, firstSwitch?]
  all_goals
    cases h
    constructor <;> simp [lastUnder_singleton, hkey, hsize, hfrom, hafter, htotal, Draft.require]

theorem pagedBy_foldlM {draft draft' : Draft} {entries : List (String × List String)}
    (h : entries.foldlM Draft.addEntry draft = .ok draft') : draft'.PagedBy draft entries := by
  induction entries generalizing draft with
  | nil =>
    obtain rfl := Except.ok.inj h
    exact ⟨rfl, rfl, rfl, rfl⟩
  | cons entry entries ih =>
    rw [List.foldlM_cons] at h
    cases hentry : draft.addEntry entry with
    | error e => rw [hentry] at h; cases h
    | ok next =>
      rw [hentry] at h
      have hrest := ih h
      have hfirst := pagedBy_addEntry hentry
      constructor
      · rw [lastUnder_cons, Option.or_assoc, ← hfirst.size, hrest.size]
      · rw [lastUnder_cons, Option.or_assoc, ← hfirst.offset, hrest.offset]
      · rw [lastUnder_cons, Option.or_assoc, ← hfirst.searchAfter, hrest.searchAfter]
      · rw [lastUnder_cons, hrest.trackTotal, hfirst.trackTotal]
        cases lastUnder "~track_total_hits" firstSwitch? entries <;> rfl

/-- The page that a query asks for is that of the last entry for each paging key. -/
structure Paged (entries : List (String × List String)) (query : Query) : Prop where
  size : query.size = lastUnder "~size" greatest? entries
  offset : query.offset = lastUnder "~from" greatest? entries
  searchAfter : query.searchAfter = lastUnder "~search_after" firstTrimmed? entries
  trackTotal : query.trackTotal = (lastUnder "~track_total_hits" firstSwitch? entries).getD false

theorem paged_compile {params : QueryParams} {query : Query} (h : compile params = .ok query) :
    Paged params.entries query := by
  rw [compile] at h
  cases hdraft : params.entries.foldlM Draft.addEntry {} with
  | error e => rw [hdraft] at h; cases h
  | ok draft =>
    rw [hdraft] at h
    obtain rfl := Except.ok.inj h
    have hpaged := pagedBy_foldlM hdraft
    constructor
    · exact hpaged.size.trans Option.or_none
    · exact hpaged.offset.trans Option.or_none
    · exact hpaged.searchAfter.trans Option.or_none
    · exact hpaged.trackTotal

end Query

end ChannelDirectory
