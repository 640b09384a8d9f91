import ChannelDirectory.Json.Number
import ChannelDirectory.Json.Printer
import Mathlib.Tactic.IntervalCases

/-!
# Printed integers read back

An integer that `Fits` 64 bits is printed as decimal digits, and `readNumber` reads these digits as
the same integer (`Json.readNumber_printed`), provided that the text goes on with nothing that
belongs to a number (`Json.EndsNumber`). Conversely every integer that is read fits
(`Json.number?_cases`).
-/

namespace ChannelDirectory.Json

/-- The integers of 64 bits, unsigned or signed. -/
def Fits (n : Int) : Prop :=
  -9223372036854775808 ≤ n ∧ n ≤ 18446744073709551615

instance (n : Int) : Decidable (Fits n) :=
  inferInstanceAs (Decidable (_ ∧ _))

/-- A number ends in front of the text. -/
def EndsNumber (rest : List Char) : Prop :=
  ∀ c ∈ rest.head?, digit? c = none ∧ c ≠ '.' ∧ c ≠ 'e' ∧ c ≠ 'E'

/-! ## Digits -/

/-- The decimal digits of a number, as numbers. -/
def digits (n : Nat) : List Nat :=
  (Nat.toDigits 10 n).map fun c => c.toNat - '0'.toNat

theorem digit?_of_isDigit {c : Char} (h : c.isDigit = true) :
    digit? c = some (c.toNat - '0'.toNat) := by
  have hrange : 0x30 ≤ c.toNat ∧ c.toNat ≤ 0x39 := by
    rw [Char.isDigit, Bool.and_eq_true, decide_eq_true_eq, decide_eq_true_eq] at h
    exact h
  simp [digit?, hrange]

/-- The digits are taken as far as they go. -/
theorem takeDigits_append {ds rest : List Char} (hds : ∀ c ∈ ds, c.isDigit = true)
    (hrest : EndsNumber rest) :
    takeDigits (ds ++ rest) = (ds.map fun c => c.toNat - '0'.toNat, rest) := by
  induction ds with
  | nil =>
    cases rest with
    | nil => rfl
    | cons c rest => simp [takeDigits, (hrest c rfl).1]
  | cons c ds ih =>
    obtain ⟨hc, hds⟩ := List.forall_mem_cons.mp hds
    rw [List.cons_append, takeDigits, digit?_of_isDigit hc, ih hds]
    rfl

/-- The first digit of a number that is not zero is none. -/
theorem head?_toDigits_ne_zero {n : Nat} (hn : n ≠ 0) :
    ∀ c ∈ (Nat.toDigits 10 n).head?, c.toNat - '0'.toNat ≠ 0 := by
  induction n using Nat.strongRecOn with
  | ind n ih =>
    rw [Nat.toDigits_eq_if (by decide)]
    split
    · rename_i hlt
      intro c hc
      obtain rfl : n.digitChar = c := by simpa using hc
      interval_cases n <;> first | exact absurd rfl hn | decide
    · rename_i hge
      intro c hc
      refine ih (n / 10) (by omega) (by omega) c ?_
      rwa [List.head?_append, Option.or_of_isSome
        (List.isSome_head?.mpr Nat.toDigits_ne_nil)] at hc

/-- The integer part of a printed number is read as its digits. -/
theorem integerPart?_toDigits (n : Nat) {rest : List Char} (hrest : EndsNumber rest) :
    integerPart? (Nat.toDigits 10 n ++ rest) = some (digits n, rest) := by
  have htake : takeDigits (Nat.toDigits 10 n ++ rest) = (digits n, rest) :=
    takeDigits_append (fun c => Nat.isDigit_of_mem_toDigits (by decide) (by decide)) hrest
  rw [integerPart?, htake]
  split
  · rename_i hnil
    have hdigits : digits n = [] := (Prod.mk.inj hnil).1
    exact absurd (List.map_eq_nil_iff.mp hdigits) Nat.toDigits_ne_nil
  · rename_i hzero
    have hdigits := (Prod.mk.inj hzero).1
    by_cases hn : n = 0
    · subst hn
      cases hdigits
    · obtain ⟨c, hc, hvalue⟩ : ∃ c ∈ (Nat.toDigits 10 n).head?, c.toNat - '0'.toNat = 0 := by
        cases hlist : Nat.toDigits 10 n with
        | nil => exact absurd hlist Nat.toDigits_ne_nil
        | cons c cs =>
          rw [digits, hlist] at hdigits
          exact ⟨c, rfl, (List.cons.inj hdigits).1⟩
      exact absurd hvalue (head?_toDigits_ne_zero hn c hc)
  · rfl

/-! ## Values -/

theorem le_foldl_digits (ds : List Nat) (s : Nat) : s ≤ ds.foldl (fun n d => n * 10 + d) s := by
  induction ds generalizing s with
  | nil => exact Nat.le_refl s
  | cons d ds ih => exact Nat.le_trans (by omega) (ih (s * 10 + d))

/-- Digits whose value is in range are all taken. -/
theorem accumulate_of_le {ds : List Nat} {s t : Nat}
    (h : ds.foldl (fun n d => n * 10 + d) s ≤ maxSignificand) :
    accumulate s t ds = (ds.foldl (fun n d => n * 10 + d) s, t + ds.length) := by
  induction ds generalizing s t with
  | nil => rfl
  | cons d ds ih =>
    rw [accumulate, if_pos (Nat.le_trans (le_foldl_digits ds _) h), ih h, List.foldl_cons,
      List.length_cons, Nat.add_assoc, Nat.add_comm 1]

/-- The significand never grows beyond its limit. -/
theorem accumulate_le (ds : List Nat) {s : Nat} (t : Nat) (h : s ≤ maxSignificand) :
    (accumulate s t ds).1 ≤ maxSignificand := by
  induction ds generalizing s t with
  | nil => exact h
  | cons d ds ih =>
    rw [accumulate]
    split
    · exact ih _ ‹_›
    · exact h

/-- The digits of a number make up this number. -/
theorem foldl_digits (n : Nat) : (digits n).foldl (fun n d => n * 10 + d) 0 = n := by
  have hvalue := Nat.ofDigitChars_ten_toDigits (n := n)
  rw [Nat.ofDigitChars_eq_foldl] at hvalue
  rw [digits, List.foldl_map]
  simpa only [Nat.mul_comm 10] using hvalue

/-- The digits of a number that fits are read as this number. -/
theorem number?_digits {n : Nat} (h : n ≤ maxSignificand) :
    number? false (digits n) [] false none = some (.integer n) := by
  rw [number?, accumulate_of_le (by rwa [foldl_digits]), foldl_digits]
  simp

/-- The digits of a negative number that fits are read as this number. -/
theorem number?_digits_negative {n : Nat} (hpos : n ≠ 0) (h : n ≤ 9223372036854775808) :
    number? true (digits n) [] false none = some (.integer (-n)) := by
  rw [number?, accumulate_of_le (by rw [foldl_digits, maxSignificand]; omega), foldl_digits]
  simp [hpos, Nat.not_lt.mpr h]

/-- A number that is read is an integer that fits, or a double. -/
theorem number?_cases {negative pointed : Bool} {whole fraction : List Nat}
    {exponent : Option (Bool × Nat)} {v : Json}
    (h : number? negative whole fraction pointed exponent = some v) :
    (∃ n, Fits n ∧ v = .integer n) ∨ ∃ bits, v = .double bits := by
  have hdouble : ∀ (negative : Bool) (significand : Nat) (e : Int),
      double? negative significand e = some v → ∃ bits, v = .double bits :=
    fun negative significand e he => by
      obtain ⟨_, -, rfl⟩ := Option.map_eq_some_iff.mp he
      exact ⟨_, rfl⟩
  have hle := accumulate_le whole 0 (Nat.zero_le maxSignificand)
  rw [maxSignificand] at hle
  simp only [number?] at h
  generalize (accumulate 0 0 whole).1 = significand at h hle
  split at h
  · split at h
    · exact .inr (hdouble _ _ _ h)
    · split at h
      · cases h
        exact .inl ⟨_, ⟨by omega, by omega⟩, rfl⟩
      · split at h
        · exact .inr (hdouble _ _ _ h)
        · rename_i hsmall
          cases h
          simp only [Bool.or_eq_true, decide_eq_true_eq, not_or, Nat.not_lt] at hsmall
          exact .inl ⟨_, ⟨by omega, by omega⟩, rfl⟩
  · split at h
    · exact .inr (hdouble _ _ _ h)
    · split at h
      · split at h
        · cases h
        · exact .inr (hdouble _ _ _ h)
      · exact .inr (hdouble _ _ _ h)

/-! ## Texts -/

theorem toString_toList_of_nonneg (n : Nat) : (toString (n : Int)).toList = Nat.toDigits 10 n := by
  change (toString n).toList = _
  rw [Nat.toString_eq_ofList_toDigits, String.toList_ofList]

theorem toString_toList_neg {n : Nat} (h : n ≠ 0) :
    (toString (-(n : Int))).toList = '-' :: Nat.toDigits 10 n := by
  change (Int.repr _).toList = _
  rw [Int.repr_eq_if, if_neg (by omega), Int.neg_neg, Int.toNat_natCast, String.toList_append]
  change '-' :: (toString n).toList = _
  rw [Nat.toString_eq_ofList_toDigits, String.toList_ofList]

/-- Where a number ends, it has no exponent. -/
theorem exponentPart?_of_ends {rest : List Char} (h : EndsNumber rest) :
    exponentPart? rest = some (none, rest) := by
  cases rest with
  | nil => rfl
  | cons c rest =>
    obtain ⟨-, -, hsmall, hlarge⟩ := h c rfl
    simp [exponentPart?, hsmall, hlarge]

/-- Where a number ends, it has no fraction. -/
theorem fractionPart?_of_ends {rest : List Char} (h : EndsNumber rest) :
    fractionPart? rest = some ([], rest) := by
  rw [fractionPart?]
  rintro cs rfl
  exact (h '.' rfl).2.1 rfl

/-- A number begins with the character. -/
def BeginsNumber (c : Char) : Prop :=
  c = '-' ∨ c.isDigit = true

/-- What begins a number is no other character. -/
theorem BeginsNumber.ne {c x : Char} (h : BeginsNumber c) (hsign : x ≠ '-')
    (hdigit : x.isDigit = false) : c ≠ x := by
  rintro rfl
  rcases h with h | h
  · exact hsign h
  · rw [hdigit] at h
    cases h

/-- A printed number begins with a digit. -/
theorem exists_toDigits_eq_cons (n : Nat) :
    ∃ c cs, Nat.toDigits 10 n = c :: cs ∧ c.isDigit = true := by
  cases hlist : Nat.toDigits 10 n with
  | nil => exact absurd hlist Nat.toDigits_ne_nil
  | cons c cs =>
    refine ⟨c, cs, rfl, Nat.isDigit_of_mem_toDigits (b := 10) (n := n) (by decide) (by decide) ?_⟩
    rw [hlist]
    exact List.mem_cons_self

theorem exists_toString_eq_cons (n : Int) :
    ∃ c cs, (toString n).toList = c :: cs ∧ BeginsNumber c := by
  by_cases hneg : n < 0
  · obtain ⟨m, rfl⟩ : ∃ m : Nat, n = -m := ⟨(-n).toNat, by omega⟩
    exact ⟨'-', _, toString_toList_neg (by omega), .inl rfl⟩
  · obtain ⟨m, rfl⟩ : ∃ m : Nat, n = m := ⟨n.toNat, by omega⟩
    obtain ⟨c, cs, hlist, hdigit⟩ := exists_toDigits_eq_cons m
    exact ⟨c, cs, by rw [toString_toList_of_nonneg, hlist], .inr hdigit⟩

/-- A printed integer is read back. -/
theorem readNumber_printed {n : Int} (hfits : Fits n) {rest : List Char}
    (hrest : EndsNumber rest) :
    readNumber ((toString n).toList ++ rest) = some (.integer n, rest) := by
  obtain ⟨hlow, hhigh⟩ := hfits
  by_cases hneg : n < 0
  · obtain ⟨m, rfl⟩ : ∃ m : Nat, n = -m := ⟨(-n).toNat, by omega⟩
    rw [toString_toList_neg (by omega), List.cons_append, readNumber]
    simp [integerPart?_toDigits m hrest, fractionPart?_of_ends hrest, exponentPart?_of_ends hrest,
      number?_digits_negative (n := m) (by omega) (by omega)]
  · obtain ⟨m, rfl⟩ : ∃ m : Nat, n = m := ⟨n.toNat, by omega⟩
    rw [toString_toList_of_nonneg, readNumber]
    · simp [integerPart?_toDigits m hrest, fractionPart?_of_ends hrest,
        exponentPart?_of_ends hrest, number?_digits (n := m) (by rw [maxSignificand]; omega)]
    · -- A digit is no sign.
      intro cs' heq
      obtain ⟨c, cs, hlist, hdigit⟩ := exists_toDigits_eq_cons m
      rw [hlist] at heq
      cases heq
      revert hdigit
      decide

end ChannelDirectory.Json
