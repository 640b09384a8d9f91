import Mathlib.Algebra.Ring.Int.Defs
import ChannelDirectory.Proofs.Query.Collecting

/-!
# Paging keys among other pairs

The predicate of a compiled query is the conjunction of what its entries ask for, in their order,
and the entries for the paging are passed over (`Query.predicate_compile`). So pairs with a size or
an offset can be put anywhere among others (`Query.PagedWith`) : as long as their values are
numbers, the pairs still compile, and to the same predicate (`Query.exists_compile_pagedWith`).

The numbers that a value can write are decimal numerals of 64 bits, with or without a sign and with
blanks around them (`Query.number?_eq_some_iff`). Negative ones are numbers too : only the listing
refuses them.
-/

namespace ChannelDirectory

namespace Query

open QueryParams

/-! ## Numerals -/

/-- The characters are decimal digits that write a number. -/
inductive Digits : List Char → Nat → Prop
  | one {c : Char} : c.isDigit = true → Digits [c] (c.toNat - '0'.toNat)
  | more {cs : List Char} {n : Nat} {c : Char} :
      Digits cs n → c.isDigit = true → Digits (cs ++ [c]) (n * 10 + (c.toNat - '0'.toNat))

/-- The characters are a decimal numeral, with or without a sign. -/
inductive Numeral : List Char → Int → Prop
  | plain {cs : List Char} {n : Nat} : Digits cs n → Numeral cs n
  | plus {cs : List Char} {n : Nat} : Digits cs n → Numeral ('+' :: cs) n
  | minus {cs : List Char} {n : Nat} : Digits cs n → Numeral ('-' :: cs) (-n)

/-- The value writes an integer of 64 bits, apart from blanks around it. -/
structure Writes (value : String) (n : Int) : Prop where
  numeral : Numeral (Text.trim value).toList n
  lower : -2 ^ 63 ≤ n
  upper : n < 2 ^ 63

variable {cs : List Char} {n : Nat}

theorem digits_iff :
    Digits cs n ↔ cs ≠ [] ∧ (∀ c ∈ cs, c.isDigit = true) ∧
      cs.foldl (fun n c => n * 10 + (c.toNat - '0'.toNat)) 0 = n := by
  constructor
  · intro h
    induction h with
    | one hc => simp [hc]
    | more _ hc ih =>
      obtain ⟨-, hall, rfl⟩ := ih
      simpa [or_imp, forall_and, hc] using hall
  · rintro ⟨hne, hall, rfl⟩
    induction cs using List.reverseRecOn with
    | nil => exact absurd rfl hne
    | append_singleton cs c ih =>
      simp only [List.mem_append, List.mem_singleton, or_imp, forall_and, forall_eq] at hall
      rw [List.foldl_append]
      by_cases hnil : cs = []
      · subst hnil
        simpa using Digits.one hall.2
      · exact .more (ih hnil hall.1) hall.2

theorem natural?_eq_some_iff : natural? cs = some n ↔ Digits cs n := by
  rw [natural?, digits_iff]
  by_cases h : cs ≠ [] ∧ ∀ c ∈ cs, c.isDigit = true
  · rw [if_neg (by simpa using h), Option.some.injEq, and_iff_right h.1, and_iff_right h.2]
    rfl
  · rw [if_pos (by simpa [or_iff_not_imp_left] using h)]
    exact iff_of_false nofun fun hdigits => h ⟨hdigits.1, hdigits.2.1⟩

/-- A sign is no digit. -/
theorem not_digits_cons {c : Char} (h : c.isDigit = false) : ¬Digits (c :: cs) n := by
  intro hdigits
  have hc := (digits_iff.mp hdigits).2.1 c List.mem_cons_self
  rw [h] at hc
  cases hc

theorem numeral_minus_iff {i : Int} :
    Numeral ('-' :: cs) i ↔ ∃ n, natural? cs = some n ∧ -(n : Int) = i := by
  simp only [natural?_eq_some_iff]
  constructor
  · intro h
    cases h with
    | plain hdigits => exact absurd hdigits (not_digits_cons rfl)
    | minus hdigits => exact ⟨_, hdigits, rfl⟩
  · rintro ⟨n, hdigits, rfl⟩
    exact .minus hdigits

theorem numeral_plus_iff {i : Int} :
    Numeral ('+' :: cs) i ↔ ∃ n, natural? cs = some n ∧ (n : Int) = i := by
  simp only [natural?_eq_some_iff]
  constructor
  · intro h
    cases h with
    | plain hdigits => exact absurd hdigits (not_digits_cons rfl)
    | plus hdigits => exact ⟨_, hdigits, rfl⟩
  · rintro ⟨n, hdigits, rfl⟩
    exact .plus hdigits

theorem numeral_plain_iff (hminus : ∀ rest, cs ≠ '-' :: rest) (hplus : ∀ rest, cs ≠ '+' :: rest)
    {i : Int} : Numeral cs i ↔ ∃ n, natural? cs = some n ∧ (n : Int) = i := by
  simp only [natural?_eq_some_iff]
  constructor
  · intro h
    cases h with
    | plain hdigits => exact ⟨_, hdigits, rfl⟩
    | plus => exact absurd rfl (hplus _)
    | minus => exact absurd rfl (hminus _)
  · rintro ⟨n, hdigits, rfl⟩
    exact .plain hdigits

theorem integer?_eq_some_iff {i : Int} :
    integer? cs = some i ↔ Numeral cs i ∧ -2 ^ 63 ≤ i ∧ i < 2 ^ 63 := by
  have hrange (read : Option Int) (hread : ∀ k, read = some k ↔ Numeral cs k) :
      (read.bind fun k =>
        if -9223372036854775808 ≤ k && k ≤ 9223372036854775807 then some k else none) = some i ↔
      Numeral cs i ∧ -2 ^ 63 ≤ i ∧ i < 2 ^ 63 := by
    rw [Option.bind_eq_some_iff, ← hread]
    constructor
    · rintro ⟨k, hk, hi⟩
      split at hi <;> rename_i hbounds <;> cases hi
      simp only [Bool.and_eq_true, decide_eq_true_eq] at hbounds
      exact ⟨hk, by omega⟩
    · rintro ⟨hi, hlower, hupper⟩
      refine ⟨i, hi, if_pos ?_⟩
      simp only [Bool.and_eq_true, decide_eq_true_eq]
      omega
  unfold integer?
  split
  · exact hrange _ fun k => by simp [numeral_minus_iff, Option.bind_eq_some_iff]
  · exact hrange _ fun k => by simp [numeral_plus_iff, Option.bind_eq_some_iff]
  · rename_i hminus hplus
    exact hrange _ fun k => by simp [numeral_plain_iff hminus hplus, Option.bind_eq_some_iff]

theorem number?_eq_some_iff {value : String} {n : Int} :
    number? value = some n ↔ Writes value n := by
  rw [number?, integer?_eq_some_iff]
  constructor
  · rintro ⟨hnumeral, hlower, hupper⟩
    refine ⟨?_, hlower, hupper⟩
    rwa [Text.trim, String.toList_ofList]
  · rintro ⟨hnumeral, hlower, hupper⟩
    rw [Text.trim, String.toList_ofList] at hnumeral
    exact ⟨hnumeral, hlower, hupper⟩

/-! ## What the entries ask for -/

/-- What a key asks for that does not direct the paging. -/
def condition (key : Key) (values : List String) : Predicate :=
  if key.name = "~name" then negateIf key.negated (nameGroup values)
  else if key.name = "~tag" then negateIf key.negated (tagGroup values)
  else if key.negated then absenceGroup key.name values
  else propertyGroup key.name values

/-- The raw key does not direct the paging. -/
def asksFor (raw : String) : Bool :=
  (Key.ofText raw).name ∉ pagingKeys

/-- The conditions that entries add, in their order. -/
def conditionsOf (entries : List (String × List String)) : List Predicate :=
  (entries.filter fun entry => asksFor entry.1).map fun entry =>
    condition (Key.ofText entry.1) entry.2

theorem conditions_addEntry {draft draft' : Draft} {entry : String × List String}
    (h : draft.addEntry entry = .ok draft') :
    draft'.conditions = draft.conditions ++ conditionsOf [entry] := by
  by_cases hpaging : (Key.ofText entry.1).name ∈ pagingKeys
  · rw [conditions_of_paging hpaging h, conditionsOf]
    simp [asksFor, hpaging]
  · have hasks : conditionsOf [entry] = [condition (Key.ofText entry.1) entry.2] := by
      simp [conditionsOf, asksFor, hpaging]
    rw [hasks]
    dsimp only [Draft.addEntry] at h
    generalize Key.ofText entry.1 = key at h hpaging ⊢
    simp only [pagingKeys, List.mem_cons, List.not_mem_nil, or_false, not_or] at hpaging
    obtain ⟨hsize, hfrom, hafter, htotal⟩ := hpaging
    simp only [if_neg hsize, if_neg hfrom, if_neg hafter, if_neg htotal] at h
    rw [condition]
    split_ifs at h ⊢ <;> cases h <;> rfl

theorem conditions_foldlM {draft draft' : Draft} {entries : List (String × List String)}
    (h : entries.foldlM Draft.addEntry draft = .ok draft') :
    draft'.conditions = draft.conditions ++ conditionsOf entries := by
  induction entries generalizing draft with
  | nil =>
    obtain rfl := Except.ok.inj h
    exact (List.append_nil _).symm
  | cons entry entries ih =>
    rw [List.foldlM_cons] at h
    cases hentry : draft.addEntry entry with
    | error e => rw [hentry] at h; cases h
    | ok next =>
      rw [hentry] at h
      have hsplit :
          conditionsOf (entry :: entries) = conditionsOf [entry] ++ conditionsOf entries := by
        rw [conditionsOf, ← List.singleton_append, List.filter_append, List.map_append]
        rfl
      rw [ih h, conditions_addEntry hentry, hsplit, List.append_assoc]

/-- The predicate that parameters compile to asks for what their entries ask for, in their order,
and does not depend on the entries for the paging. -/
theorem predicate_compile {params : QueryParams} {query : Query} (h : compile params = .ok query) :
    query.predicate = .conjunction (conditionsOf params.entries) := by
  rw [compile] at h
  cases hdraft : params.entries.foldlM Draft.addEntry {} with
  | error e => rw [hdraft] at h; cases h
  | ok draft =>
    rw [hdraft] at h
    obtain rfl := Except.ok.inj h
    exact congrArg Predicate.conjunction (conditions_foldlM hdraft)

/-! ## Pairs for the paging -/

/-- The pair gives a size or an offset : its raw key spells one of the two, as it is or negated,
and its value is a number. -/
structure GivesPage (pair : String × String) : Prop where
  key : ∃ key, Spells pair.1 key ∧ key.name ∈ ["~size", "~from"]
  value : ∃ n, Writes pair.2 n

/-- The second pairs are the first ones, with pairs that give a size or an offset anywhere among
them. -/
inductive PagedWith : List (String × String) → List (String × String) → Prop
  | nil : PagedWith [] []
  | keep (pair : String × String) {pairs pairs' : List (String × String)} :
      PagedWith pairs pairs' → PagedWith (pair :: pairs) (pair :: pairs')
  | insert {pair : String × String} {pairs pairs' : List (String × String)} :
      GivesPage pair → PagedWith pairs pairs' → PagedWith pairs (pair :: pairs')

variable {pair : String × String} {pairs pairs' : List (String × String)} {query : Query}

theorem GivesPage.name (h : GivesPage pair) : (Key.ofText pair.1).name ∈ ["~size", "~from"] := by
  obtain ⟨key, hspells, hname⟩ := h.key
  rwa [← spells_iff.mp hspells]

theorem GivesPage.asksFor (h : GivesPage pair) : asksFor pair.1 = false := by
  have hsub : ["~size", "~from"] ⊆ pagingKeys := by decide
  simp [Query.asksFor, hsub h.name]

theorem GivesPage.accepts (h : GivesPage pair) : Accepts (pair.1, [pair.2]) := by
  obtain ⟨n, hn⟩ := h.value
  refine ⟨?_, fun _ value hvalue => ?_⟩
  · intro hempty
    have hname := h.name
    rw [hempty] at hname
    exact absurd hname (by decide)
  · rw [List.mem_singleton.mp hvalue, number?_eq_some_iff.mpr hn]
    rfl

theorem PagedWith.accepts (h : PagedWith pairs pairs')
    (hpairs : ∀ pair ∈ pairs, Accepts (pair.1, [pair.2])) :
    ∀ pair ∈ pairs', Accepts (pair.1, [pair.2]) := by
  induction h with
  | nil => exact hpairs
  | keep pair _ ih =>
    obtain ⟨hpair, hpairs⟩ := List.forall_mem_cons.mp hpairs
    exact List.forall_mem_cons.mpr ⟨hpair, ih hpairs⟩
  | insert hgives _ ih => exact List.forall_mem_cons.mpr ⟨hgives.accepts, ih hpairs⟩

theorem PagedWith.filter_eq (h : PagedWith pairs pairs') :
    (pairs'.filter fun pair => Query.asksFor pair.1) =
      pairs.filter fun pair => Query.asksFor pair.1 := by
  induction h with
  | nil => rfl
  | keep pair _ ih => rw [List.filter_cons, List.filter_cons, ih]
  | insert hgives _ ih => rw [List.filter_cons, if_neg (by rw [hgives.asksFor]; decide), ih]

/-- Pairs for the paging leave the conditions as they are. -/
theorem PagedWith.conditionsOf_eq (h : PagedWith pairs pairs') :
    conditionsOf (ofPairs pairs').entries = conditionsOf (ofPairs pairs).entries := by
  rw [conditionsOf, filter_entries_ofPairs, h.filter_eq, ← filter_entries_ofPairs, conditionsOf]

/-- With pairs for the paging among them, pairs compile to the same predicate. -/
theorem exists_compile_pagedWith (h : PagedWith pairs pairs')
    (hcompile : compile (.ofPairs pairs) = .ok query) :
    ∃ query', compile (.ofPairs pairs') = .ok query' ∧ query'.predicate = query.predicate := by
  obtain ⟨query', hcompile'⟩ :=
    exists_compile_iff.mpr (h.accepts (exists_compile_iff.mp ⟨query, hcompile⟩))
  refine ⟨query', hcompile', ?_⟩
  rw [predicate_compile hcompile', h.conditionsOf_eq, ← predicate_compile hcompile]

end Query

end ChannelDirectory
