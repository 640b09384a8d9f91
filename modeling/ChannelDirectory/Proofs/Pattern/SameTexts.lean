import Mathlib.Data.Finset.Card
import ChannelDirectory.Proofs.Pattern.Arrangement
import ChannelDirectory.Proofs.Pattern.Recognition

/-!
# Patterns that match the same texts

Patterns that are equal up to the order of their wildcards match the same texts. They are the only
ones : if two patterns match the same texts, every run of wildcards has as many `?` in the one as in
the other, and a `*` in both or in none (`Mark.eq_of_fits_iff`). So `Pattern.arranged` decides
whether patterns mean the same (`Pattern.same_texts_iff_arranged`), and comparing them as they are
read does not (`Pattern.same_texts_not_equal`).

The texts to look at are short. Those with one character for each place of a pattern tell what the
places are (`Mark.places_eq_of_fits_iff`). Those with one character more tell where a `*` is. Let
`d` be that character, and the one for every `?` too. It fits at a `*` (`Mark.fits_ahead`). Were it
taken by a `*` further to the front, what the pattern asks for between them would be met one place
later, and its last character by `d`; were it left to what comes next, the next character would be
`d` (`Mark.not_fits_ahead`). So `d` is chosen apart from these two, and that takes three
characters : with `a` and `b` alone, `*a*b*` and `*ab*` would match the same texts.
-/

namespace ChannelDirectory

namespace Mark

variable {marks marks' before after later : List Mark} {text : List Char} {c d : Char}

/-! ## Shortest texts -/

/-- What the marks say of single characters. -/
def places : List Mark → List (Option Char)
  | [] => []
  | char c :: marks => some c :: places marks
  | one :: marks => none :: places marks
  | many :: marks => places marks

/-- The text has a character for every place, and the one that is asked for. -/
def Fills (places : List (Option Char)) (text : List Char) : Prop :=
  List.Forall₂ (fun place c => place.getD c = c) places text

/-- The places with one character wherever any is good. -/
def fill (d : Char) (places : List (Option Char)) : List Char :=
  places.map (·.getD d)

theorem fits_fill (d : Char) (marks : List Mark) : Fits marks (fill d (places marks)) := by
  induction marks with
  | nil => exact fits_nil_iff.mpr rfl
  | cons mark marks ih =>
    cases mark with
    | char c => exact fits_char_iff.mpr ⟨_, rfl, ih⟩
    | one => exact fits_one_iff.mpr ⟨d, _, rfl, ih⟩
    | many => exact ih.many

/-- Every place needs a character. -/
theorem Fits.length_le (h : Fits marks text) : (places marks).length ≤ text.length := by
  induction marks generalizing text with
  | nil => exact Nat.zero_le _
  | cons mark marks ih =>
    cases mark with
    | char c =>
      obtain ⟨rest, rfl, hrest⟩ := fits_char_iff.mp h
      exact Nat.succ_le_succ (ih hrest)
    | one =>
      obtain ⟨d, rest, rfl, hrest⟩ := fits_one_iff.mp h
      exact Nat.succ_le_succ (ih hrest)
    | many =>
      obtain ⟨skipped, rest, rfl, hrest⟩ := fits_many_iff.mp h
      exact (ih hrest).trans (by simp)

/-- With one character for each place, nothing is left for a `*`. -/
theorem Fits.fills (h : Fits marks text) (hlength : text.length = (places marks).length) :
    Fills (places marks) text := by
  induction marks generalizing text with
  | nil =>
    rw [fits_nil_iff.mp h]
    exact .nil
  | cons mark marks ih =>
    cases mark with
    | char c =>
      obtain ⟨rest, rfl, hrest⟩ := fits_char_iff.mp h
      exact .cons rfl (ih hrest (Nat.succ.inj hlength))
    | one =>
      obtain ⟨d, rest, rfl, hrest⟩ := fits_one_iff.mp h
      exact .cons rfl (ih hrest (Nat.succ.inj hlength))
    | many =>
      obtain ⟨skipped, rest, rfl, hrest⟩ := fits_many_iff.mp h
      have hle := hrest.length_le
      rw [places, List.length_append] at hlength
      obtain rfl : skipped = [] := List.eq_nil_of_length_eq_zero (by omega)
      exact ih hrest (by simpa using hlength)

/-- With one character more, a `*` takes it or leaves it to the rest. -/
theorem Fits.fits_or_fills (h : Fits (.many :: marks) (d :: text))
    (hlength : text.length = (places marks).length) :
    Fits marks (d :: text) ∨ Fills (places marks) text := by
  obtain ⟨skipped, rest, htext, hrest⟩ := fits_many_iff.mp h
  cases skipped with
  | nil => exact .inl (htext ▸ hrest)
  | cons e skipped =>
    rw [List.cons_append] at htext
    obtain ⟨rfl, rfl⟩ := List.cons.inj htext
    have hle := hrest.length_le
    rw [List.length_append] at hlength
    obtain rfl : skipped = [] := List.eq_nil_of_length_eq_zero (by omega)
    exact .inr (hrest.fills (by simpa using hlength))

/-- A place is known by the characters that it asks for. -/
theorem eq_of_getD {place place' : Option Char} (h : ∀ d, place'.getD (place.getD d) = place.getD d)
    (hback : ∀ d, place.getD (place'.getD d) = place'.getD d) : place = place' := by
  cases place with
  | none =>
    cases place' with
    | none => rfl
    | some c => exact absurd ((h 'a').symm.trans (h 'b')) (by decide)
  | some c =>
    cases place' with
    | none => exact absurd ((hback 'a').symm.trans (hback 'b')) (by decide)
    | some c' => exact congrArg some (h 'a').symm

/-- Places are known by the texts that fill them. -/
theorem eq_of_fills {places places' : List (Option Char)}
    (h : ∀ d, Fills places' (fill d places)) (h' : ∀ d, Fills places (fill d places')) :
    places = places' := by
  induction places generalizing places' with
  | nil =>
    cases h 'a'
    rfl
  | cons place places ih =>
    cases places' with
    | nil => cases h 'a'
    | cons place' places' =>
      have hcons := fun d => List.forall₂_cons.mp (h d)
      have hcons' := fun d => List.forall₂_cons.mp (h' d)
      rw [eq_of_getD (fun d => (hcons d).1) fun d => (hcons' d).1,
        ih (fun d => (hcons d).2) fun d => (hcons' d).2]

/-- Marks that fit the same texts have the same places. -/
theorem places_eq_of_fits_iff (h : ∀ text, Fits marks text ↔ Fits marks' text) :
    places marks = places marks' := by
  have hlength : ∀ d marks, (fill d (places marks)).length = (places marks).length :=
    fun d marks => List.length_map _
  have hfits := fun d => (h _).mp (fits_fill d marks)
  have hback := fun d => (h _).mpr (fits_fill d marks')
  have heq : (places marks').length = (places marks).length :=
    le_antisymm (hlength 'a' marks ▸ (hfits 'a').length_le)
      (hlength 'a' marks' ▸ (hback 'a').length_le)
  refine eq_of_fills (fun d => (hfits d).fills ?_) fun d => (hback d).fills ?_
  · rw [hlength, heq]
  · rw [hlength, heq]

/-! ## Texts with one character more -/

/-- The last character that the places ask for. -/
def lastChar? : List (Option Char) → Option Char
  | [] => none
  | place :: places => (lastChar? places).or place

theorem lastChar?_cons_ne {place : Option Char} {places : List (Option Char)}
    (h : lastChar? (place :: places) ≠ some d) : lastChar? places ≠ some d := by
  intro hlast
  exact h (by rw [lastChar?, hlast, Option.or])

/-- If places are filled by what fills them one place later, with `d` in front of the rest, the last
character of those before is `d`. -/
theorem eq_of_lastChar? {place : Option Char} {before after : List (Option Char)}
    (h : Fills (place :: (before ++ after)) (fill d (before ++ none :: after)))
    (hlast : lastChar? (place :: before) = some c) : c = d := by
  induction before generalizing place with
  | nil =>
    obtain rfl : place = some c := hlast
    exact (List.forall₂_cons.mp h).1
  | cons next before ih =>
    obtain ⟨hplace, hrest⟩ := List.forall₂_cons.mp h
    rw [lastChar?] at hlast
    cases hnext : lastChar? (next :: before) with
    | some c' =>
      rw [hnext, Option.or, Option.some.injEq] at hlast
      exact ih hrest (hlast ▸ hnext)
    | none =>
      rw [hnext, Option.none_or] at hlast
      rw [lastChar?, Option.or_eq_none_iff] at hnext
      rwa [hlast, hnext.2] at hplace

theorem places_append (marks marks' : List Mark) :
    places (marks ++ marks') = places marks ++ places marks' := by
  induction marks with
  | nil => rfl
  | cons mark marks ih => cases mark <;> simp [places, ih]

/-- The text that has one character more at a `*`. -/
theorem fits_ahead (d : Char) :
    Fits (before ++ many :: after) (fill d (places before ++ none :: places after)) := by
  have hafter : Fits (many :: after) (d :: fill d (places after)) :=
    fits_many_iff.mpr ⟨[d], _, rfl, fits_fill d after⟩
  rw [Fits, List.map_append, fill, List.map_append]
  exact Segment.cut_append (fits_fill d before) hafter

/-- A `*` before a character cannot take it, for what comes next would be met one place later. -/
theorem not_fills_ahead (hlast : lastChar? (places (char c :: before)) ≠ some d) :
    ¬Fills (places (char c :: before ++ after))
      (fill d (places before ++ none :: places after)) := by
  intro hfills
  rw [places_append] at hfills
  cases hc : lastChar? (some c :: places before) with
  | none => exact absurd (Option.or_eq_none_iff.mp hc).2 (by simp)
  | some c' => exact hlast (hc.trans (congrArg some (eq_of_lastChar? hfills hc)))

/-- No `*` further to the front can take the character that one at this place would take. -/
theorem not_fits_ahead (harranged : Arranged (before ++ many :: later))
    (hlast : lastChar? (places before) ≠ some d) (hafter : ∀ text, ¬Fits after (d :: text)) :
    ¬Fits (before ++ after) (fill d (places before ++ none :: places after)) := by
  induction before with
  | nil => exact hafter _
  | cons mark before ih =>
    intro h
    -- A character and a `?` take their own place, so a `*` alone has a choice.
    cases mark with
    | char c =>
      cases harranged with
      | char _ harranged =>
        obtain ⟨rest, hrest, hfits⟩ := fits_char_iff.mp h
        obtain rfl := (List.cons.inj hrest).2
        exact ih harranged (lastChar?_cons_ne hlast) hfits
    | one =>
      cases harranged with
      | one harranged =>
        obtain ⟨d', rest, hrest, hfits⟩ := fits_one_iff.mp h
        obtain rfl := (List.cons.inj hrest).2
        exact ih harranged (lastChar?_cons_ne hlast) hfits
    | many =>
      cases before with
      | nil => cases harranged
      | cons mark before =>
        cases harranged with
        | @many _ c harranged =>
          have hlength : (fill d (places before ++ none :: places after)).length =
              (places (char c :: before ++ after)).length := by
            simp [fill, places, places_append, Nat.add_assoc]
          rcases h.fits_or_fills hlength with hfits | hfills
          · exact ih harranged hlast hfits
          · exact not_fills_ahead hlast hfills

/-! ## Marks with the same texts -/

/-- There is a character apart from any two. -/
theorem exists_ne_some (a b : Option Char) : ∃ d, a ≠ some d ∧ b ≠ some d := by
  have hcard : ({a.getD 'a', b.getD 'a'} : Finset Char).card <
      ({'a', 'b', 'c'} : Finset Char).card :=
    Finset.card_le_two.trans_lt (by decide)
  obtain ⟨d, -, hd⟩ := Finset.exists_mem_notMem_of_card_lt_card hcard
  rw [Finset.mem_insert, Finset.mem_singleton, not_or] at hd
  refine ⟨d, ?_, ?_⟩
  · rintro rfl
    exact hd.1 rfl
  · rintro rfl
    exact hd.2 rfl

/-- A `*` is known by the texts that have one character more there. -/
theorem exists_many_of_fits_iff (harranged : Arranged (before ++ many :: later))
    (h : ∀ text, Fits (before ++ many :: later) text ↔ Fits (before ++ after) text) :
    ∃ rest, after = many :: rest := by
  have hplaces : places later = places after := by
    simpa [places_append, places] using places_eq_of_fits_iff h
  obtain ⟨d, hlast, hnext⟩ := exists_ne_some (lastChar? (places before)) (places later).head?.join
  by_contra hmany
  have hafter : ∀ text, ¬Fits after (d :: text) := by
    intro text hfits
    cases after with
    | nil => cases fits_nil_iff.mp hfits
    | cons mark after =>
      cases mark with
      | char c =>
        obtain ⟨rest, hrest, -⟩ := fits_char_iff.mp hfits
        obtain ⟨rfl, -⟩ := List.cons.inj hrest
        rw [hplaces] at hnext
        exact hnext rfl
      | one =>
        -- What follows a `*` is no `?`, so the places differ here.
        cases harranged.of_append with
        | last | many => cases hplaces
      | many => exact hmany ⟨_, rfl⟩
  refine not_fits_ahead harranged hlast hafter ((h _).mp ?_)
  rw [← hplaces]
  exact fits_ahead d

/-- The mark that stands for a place. -/
def ofPlace : Option Char → Mark
  | some c => char c
  | none => one

theorem head?_eq_of_places (h : ¬∃ rest, marks = many :: rest) :
    marks.head? = (places marks).head?.map ofPlace := by
  cases marks with
  | nil => rfl
  | cons mark marks =>
    cases mark with
    | char c | one => rfl
    | many => exact absurd ⟨marks, rfl⟩ h

theorem head?_eq_of_fits_iff (harranged : Arranged (before ++ marks))
    (harranged' : Arranged (before ++ marks'))
    (h : ∀ text, Fits (before ++ marks) text ↔ Fits (before ++ marks') text) :
    marks.head? = marks'.head? := by
  by_cases hmany : ∃ rest, marks = many :: rest
  · obtain ⟨rest, rfl⟩ := hmany
    obtain ⟨rest', rfl⟩ := exists_many_of_fits_iff harranged h
    rfl
  · have hmany' : ¬∃ rest, marks' = many :: rest := by
      rintro ⟨rest', rfl⟩
      exact hmany (exists_many_of_fits_iff harranged' fun text => (h text).symm)
    have hplaces : places marks = places marks' := by
      simpa [places_append] using places_eq_of_fits_iff h
    rw [head?_eq_of_places hmany, head?_eq_of_places hmany', hplaces]

/-- Arranged marks that fit the same texts, after the same marks, are the same. -/
theorem eq_of_fits_iff (before : List Mark) (harranged : Arranged (before ++ marks))
    (harranged' : Arranged (before ++ marks'))
    (h : ∀ text, Fits (before ++ marks) text ↔ Fits (before ++ marks') text) : marks = marks' := by
  have hhead := head?_eq_of_fits_iff harranged harranged' h
  induction marks generalizing before marks' with
  | nil => exact (List.head?_eq_none_iff.mp hhead.symm).symm
  | cons mark marks ih =>
    obtain ⟨rest, rfl⟩ := List.head?_eq_some_iff.mp hhead.symm
    rw [List.append_cons] at harranged harranged'
    have hrest : ∀ text,
        Fits (before ++ [mark] ++ marks) text ↔ Fits (before ++ [mark] ++ rest) text := by
      intro text
      rw [← List.append_cons, ← List.append_cons, h]
    rw [ih _ harranged harranged' hrest (head?_eq_of_fits_iff harranged harranged' hrest)]

end Mark

namespace Pattern

variable {p q : Pattern}

theorem arrange_marks_eq (h : ∀ text, p.Matches .sensitive text ↔ q.Matches .sensitive text) :
    Mark.arrange p.marks = Mark.arrange q.marks := by
  refine Mark.eq_of_fits_iff [] (Mark.arranged_arrange _) (Mark.arranged_arrange _) fun text => ?_
  have htext := h (String.ofList text)
  rw [matches_iff_fits, matches_iff_fits, String.toList_ofList] at htext
  rwa [List.nil_append, List.nil_append, Mark.fits_arrange_iff, Mark.fits_arrange_iff]

theorem same_texts_of_arranged_eq (h : p.arranged = q.arranged) (text : String) :
    p.matchesText .sensitive text = q.matchesText .sensitive text := by
  rw [Bool.eq_iff_iff, matchesText_iff, matchesText_iff, ← matches_arranged_iff, h,
    matches_arranged_iff]

/-- Two patterns that are read from texts match the same texts exactly if they are equal once
their wildcards are in order. They are in order already where no `*` stands before a wildcard. -/
theorem same_texts_iff_arranged (source source' : String) :
    ((∀ text, (parse source).matchesText .sensitive text =
          (parse source').matchesText .sensitive text) ↔
        (parse source).arranged = (parse source').arranged) ∧
      ((parse source).arranged = parse source ↔ Mark.Arranged (parse source).marks) := by
  refine ⟨⟨fun h => ?_, same_texts_of_arranged_eq⟩, arranged_eq_self_iff⟩
  have hmatches : ∀ text, (parse source).Matches .sensitive text ↔
      (parse source').Matches .sensitive text := by
    intro text
    rw [← matchesText_iff, h, matchesText_iff]
  rw [arranged, arranged, arrange_marks_eq hmatches]

/-- A star before a question mark and one behind it match the same texts and are not equal. -/
theorem same_texts_not_equal :
    ¬∀ source source' : String,
      (∀ text, (parse source).matchesText .sensitive text =
        (parse source').matchesText .sensitive text) → parse source = parse source' := by
  intro h
  exact absurd (h "*?" "?*" (same_texts_of_arranged_eq (by decide))) (by decide)

end Pattern

end ChannelDirectory
