import ChannelDirectory.Proofs.Pattern.Matching

/-!
# The meaning of a pattern text

`Pattern.Admits` says which texts a pattern text stands for, one character of it after
another : `*` skips anything, `?` skips one character, a backslash makes the next character
stand for itself, and so does every other character. The segments that `Pattern.parse`
builds mean the same (`Pattern.matches_parse_iff`), because bringing them into normal form
changes nothing (`Segment.cut_normalize_iff`).

The normal form is what makes `Pattern.matchesEverything` right : the only list of segments
in normal form that matches every text is `*` alone (`Pattern.matchesEverything_parse_iff`).
Its pattern texts are those of one star or more (`Pattern.admits_all_iff`).
-/

namespace ChannelDirectory

/-- The texts that a pattern text stands for. -/
inductive Pattern.Admits (mode : CaseMode) : List Char → List Char → Prop where
  | nil : Admits mode [] []
  | sequence {pattern rest : List Char} (skipped : List Char) :
      Admits mode pattern rest → Admits mode ('*' :: pattern) (skipped ++ rest)
  | single {pattern rest : List Char} (c : Char) :
      Admits mode pattern rest → Admits mode ('?' :: pattern) (c :: rest)
  | escaped {pattern rest : List Char} {c d : Char} :
      mode.key d = mode.key c → Admits mode pattern rest →
        Admits mode ('\\' :: c :: pattern) (d :: rest)
  | dangling {d : Char} : mode.key d = mode.key '\\' → Admits mode ['\\'] [d]
  | plain {pattern rest : List Char} {c d : Char} :
      c ∉ ['*', '?', '\\'] → mode.key d = mode.key c → Admits mode pattern rest →
        Admits mode (c :: pattern) (d :: rest)

/-! ## What each beginning of a pattern text stands for -/

namespace Pattern

variable {mode : CaseMode} {pattern text : List Char} {c : Char}

theorem admits_nil_iff : Admits mode [] text ↔ text = [] := by
  constructor
  · rintro ⟨⟩
    rfl
  · rintro rfl
    exact .nil

/-- A backslash at the end stands for itself. -/
theorem admits_dangling_iff :
    Admits mode ['\\'] text ↔ ∃ d, text = [d] ∧ mode.key d = mode.key '\\' := by
  constructor
  · intro h
    cases h with
    | dangling hkey => exact ⟨_, rfl, hkey⟩
    | plain hspecial => simp at hspecial
  · rintro ⟨d, rfl, hkey⟩
    exact .dangling hkey

theorem admits_escaped_iff :
    Admits mode ('\\' :: c :: pattern) text ↔
      ∃ d rest, text = d :: rest ∧ mode.key d = mode.key c ∧ Admits mode pattern rest := by
  constructor
  · intro h
    cases h with
    | escaped hkey hrest => exact ⟨_, _, rfl, hkey, hrest⟩
    | plain hspecial => simp at hspecial
  · rintro ⟨d, rest, rfl, hkey, hrest⟩
    exact .escaped hkey hrest

theorem admits_sequence_iff :
    Admits mode ('*' :: pattern) text ↔
      ∃ skipped rest, text = skipped ++ rest ∧ Admits mode pattern rest := by
  constructor
  · intro h
    cases h with
    | sequence skipped hrest => exact ⟨skipped, _, rfl, hrest⟩
    | plain hspecial => simp at hspecial
  · rintro ⟨skipped, rest, rfl, hrest⟩
    exact .sequence skipped hrest

theorem admits_single_iff :
    Admits mode ('?' :: pattern) text ↔ ∃ d rest, text = d :: rest ∧ Admits mode pattern rest := by
  constructor
  · intro h
    cases h with
    | single d hrest => exact ⟨d, _, rfl, hrest⟩
    | plain hspecial => simp at hspecial
  · rintro ⟨d, rest, rfl, hrest⟩
    exact .single d hrest

/-- Every character without a meaning of its own stands for itself. -/
theorem admits_plain_iff (hplain : c ∉ ['*', '?', '\\']) :
    Admits mode (c :: pattern) text ↔
      ∃ d rest, text = d :: rest ∧ mode.key d = mode.key c ∧ Admits mode pattern rest := by
  constructor
  · intro h
    cases h with
    | plain _ hkey hrest => exact ⟨_, _, rfl, hkey, hrest⟩
    | _ => simp at hplain
  · rintro ⟨d, rest, rfl, hkey, hrest⟩
    exact .plain hplain hkey hrest

end Pattern

namespace Segment

variable {mode : CaseMode}

/-! ## Normal form -/

/-- Two literals in a row are one literal. -/
theorem cut_literal_append_iff {first second : String} {segments : List Segment}
    {text : List Char} :
    Cut mode (literal (first ++ second) :: segments) text ↔
      Cut mode (literal first :: literal second :: segments) text := by
  rw [cut_cons_iff, cut_cons_iff]
  constructor
  · rintro ⟨piece, rest, rfl, hpiece, hrest⟩
    rw [Covers, String.toList_append, List.map_append] at hpiece
    obtain ⟨front, back, rfl, hfront, hback⟩ := List.map_eq_append_iff.mp hpiece
    exact ⟨front, back ++ rest, List.append_assoc .., hfront, .cons hback hrest⟩
  · rintro ⟨front, later, rfl, hfront, hlater⟩
    obtain ⟨back, rest, rfl, hback, hrest⟩ := cut_cons_iff.mp hlater
    refine ⟨front ++ back, rest, (List.append_assoc ..).symm, ?_, hrest⟩
    rw [Covers] at hfront hback ⊢
    rw [List.map_append, String.toList_append, List.map_append, hfront, hback]

/-- An empty literal is no segment at all. -/
theorem cut_literal_empty_iff {segments : List Segment} {text : List Char} :
    Cut mode (literal "" :: segments) text ↔ Cut mode segments text := by
  simp [cut_cons_iff, Covers]

/-- Two `*` in a row are one `*`. -/
theorem cut_anySequence_twice_iff {segments : List Segment} {text : List Char} :
    Cut mode (anySequence :: anySequence :: segments) text ↔
      Cut mode (anySequence :: segments) text := by
  constructor
  · intro h
    obtain ⟨piece, later, rfl, -, hlater⟩ := cut_cons_iff.mp h
    obtain ⟨more, rest, rfl, -, hrest⟩ := cut_cons_iff.mp hlater
    rw [← List.append_assoc]
    exact .cons trivial hrest
  · intro h
    exact cut_cons_iff.mpr ⟨[], text, rfl, trivial, h⟩

theorem cut_prepend_iff {segment : Segment} {segments : List Segment} {text : List Char} :
    Cut mode (prepend segment segments) text ↔ Cut mode (segment :: segments) text := by
  fun_cases prepend segment segments with
  | case1 => exact cut_literal_empty_iff.symm
  | case2 => exact cut_literal_append_iff
  | case3 => rfl
  | case4 => exact cut_anySequence_twice_iff.symm
  | case5 => rfl

/-- The normal form of segments cuts the same texts. -/
theorem cut_normalize_iff {segments : List Segment} {text : List Char} :
    Cut mode (normalize segments) text ↔ Cut mode segments text := by
  induction segments generalizing text with
  | nil => rfl
  | cons segment segments ih =>
    rw [normalize, List.foldr_cons, ← normalize, cut_prepend_iff, cut_cons_iff, cut_cons_iff]
    simp only [ih]

/-- In normal form, only `*` and no segment at all match the empty text. -/
theorem normalize_of_cut_nil {segments : List Segment} (h : Cut mode segments []) :
    normalize segments = [] ∨ normalize segments = [anySequence] := by
  induction segments with
  | nil => exact .inl rfl
  | cons segment segments ih =>
    obtain ⟨piece, rest, hnil, hpiece, hrest⟩ := cut_cons_iff.mp h
    obtain ⟨rfl, rfl⟩ := List.append_eq_nil_iff.mp hnil.symm
    rw [normalize, List.foldr_cons, ← normalize]
    cases segment with
    | literal text =>
      have hempty : text = "" := by simpa [Covers] using hpiece.symm
      rw [hempty]
      exact ih hrest
    | anyChar => simp [Covers] at hpiece
    | anySequence => rcases ih hrest with heq | heq <;> rw [heq] <;> exact .inr rfl

/-! ## Pattern texts -/

/-- A literal of one character covers one character. -/
theorem cut_singleton_iff {c : Char} {segments : List Segment} {text : List Char} :
    Cut mode (literal (String.singleton c) :: segments) text ↔
      ∃ d rest, text = d :: rest ∧ mode.key d = mode.key c ∧ Cut mode segments rest := by
  rw [cut_cons_iff]
  constructor
  · rintro ⟨piece, rest, rfl, hpiece, hrest⟩
    obtain ⟨d, rfl, hkey⟩ := List.map_eq_singleton_iff.mp (by simpa [Covers] using hpiece)
    exact ⟨d, rest, rfl, hkey, hrest⟩
  · rintro ⟨d, rest, rfl, hkey, hrest⟩
    exact ⟨[d], rest, rfl, by simp [Covers, hkey], hrest⟩

theorem cut_anyChar_iff {segments : List Segment} {text : List Char} :
    Cut mode (anyChar :: segments) text ↔ ∃ d rest, text = d :: rest ∧ Cut mode segments rest := by
  rw [cut_cons_iff]
  constructor
  · rintro ⟨piece, rest, rfl, hpiece, hrest⟩
    obtain ⟨d, rfl⟩ := List.length_eq_one_iff.mp hpiece
    exact ⟨d, rest, rfl, hrest⟩
  · rintro ⟨d, rest, rfl, hrest⟩
    exact ⟨[d], rest, rfl, rfl, hrest⟩

/-- The segments of a pattern text cut the texts that it stands for. -/
theorem cut_ofChars_iff {pattern text : List Char} :
    Cut mode (ofChars pattern) text ↔ Pattern.Admits mode pattern text := by
  induction pattern using ofChars.induct generalizing text with
  | case1 => rw [ofChars, cut_nil_iff, Pattern.admits_nil_iff]
  | case2 =>
    rw [ofChars, show ("\\" : String) = String.singleton '\\' from rfl, cut_singleton_iff,
      Pattern.admits_dangling_iff]
    simp only [cut_nil_iff]
    constructor
    · rintro ⟨d, rest, rfl, hkey, rfl⟩
      exact ⟨d, rfl, hkey⟩
    · rintro ⟨d, rfl, hkey⟩
      exact ⟨d, [], rfl, hkey, rfl⟩
  | case3 c pattern ih =>
    rw [ofChars, cut_singleton_iff, Pattern.admits_escaped_iff]
    simp only [ih]
  | case4 pattern ih =>
    rw [ofChars, cut_cons_iff, Pattern.admits_sequence_iff]
    simp only [Covers, true_and, ih]
  | case5 pattern ih =>
    rw [ofChars, cut_anyChar_iff, Pattern.admits_single_iff]
    simp only [ih]
  | case6 c pattern hdangling hescaped hstar hquestion ih =>
    have hplain : c ∉ ['*', '?', '\\'] := by
      simp only [List.mem_cons, List.not_mem_nil, or_false, not_or]
      refine ⟨hstar, hquestion, ?_⟩
      rintro rfl
      cases pattern with
      | nil => exact hdangling rfl rfl
      | cons d pattern => exact hescaped d pattern rfl rfl
    rw [ofChars.eq_6 _ _ hdangling hescaped hstar hquestion, cut_singleton_iff,
      Pattern.admits_plain_iff hplain]
    simp only [ih]

end Segment

open Segment

namespace Pattern

variable {mode : CaseMode} {text : String}

/-- A pattern that is read from a text matches what the text stands for. -/
theorem matches_parse_iff {source : String} :
    (parse source).Matches mode text ↔ Admits mode source.toList text.toList := by
  rw [Matches, parse, ofSegments, cut_normalize_iff, cut_ofChars_iff]

/-- A literal pattern matches its own text and nothing else. -/
theorem matches_literal_iff {source : String} :
    (literal source).Matches mode text ↔
      text.toList.map mode.key = source.toList.map mode.key := by
  rw [Matches, literal, ofSegments, cut_normalize_iff, cut_cons_iff]
  simp [cut_nil_iff, Covers]

/-- A single `*` is the only pattern in normal form that matches every text. -/
theorem matchesEverything_ofSegments_iff {segments : List Segment} :
    (ofSegments segments).matchesEverything = true ↔
      ∀ text, (ofSegments segments).Matches mode text := by
  rw [matchesEverything, decide_eq_true_iff]
  constructor
  · intro h text
    rw [Matches, h]
    exact cut_cons_iff.mpr ⟨text.toList, [], by simp, trivial, .nil⟩
  · intro h
    have hempty := h ""
    rw [Matches, ofSegments, cut_normalize_iff] at hempty
    rcases normalize_of_cut_nil hempty with hnone | hstar
    · have hletter := h "a"
      rw [Matches, ofSegments, hnone, cut_nil_iff] at hletter
      simp at hletter
    · exact hstar

/-- Only stars match the empty text. -/
theorem eq_star_of_admits_nil {source : List Char} (h : Admits mode source []) :
    ∀ c ∈ source, c = '*' := by
  generalize hnil : ([] : List Char) = text at h
  induction h with
  | nil => exact fun c hc => absurd hc List.not_mem_nil
  | sequence skipped _ ih =>
    obtain ⟨-, hrest⟩ := List.append_eq_nil_iff.mp hnil.symm
    exact List.forall_mem_cons.mpr ⟨rfl, ih hrest.symm⟩
  | _ => cases hnil

theorem admits_nil_of_eq_star {source : List Char} (h : ∀ c ∈ source, c = '*') :
    Admits mode source [] := by
  induction source with
  | nil => exact .nil
  | cons c source ih =>
    obtain ⟨rfl, hrest⟩ := List.forall_mem_cons.mp h
    exact .sequence [] (ih hrest)

/-- A pattern text that stands for every text is one star or more. -/
theorem admits_all_iff {source : List Char} :
    (∀ text : String, Admits mode source text.toList) ↔ source ≠ [] ∧ ∀ c ∈ source, c = '*' := by
  constructor
  · intro h
    refine ⟨?_, eq_star_of_admits_nil (h "")⟩
    rintro rfl
    cases h "a"
  · rintro ⟨hne, hstars⟩ text
    obtain ⟨c, source, rfl⟩ := List.exists_cons_of_ne_nil hne
    obtain ⟨rfl, hrest⟩ := List.forall_mem_cons.mp hstars
    rw [← List.append_nil text.toList]
    exact .sequence _ (admits_nil_of_eq_star hrest)

theorem matchesEverything_parse_iff {source : String} :
    (parse source).matchesEverything = true ↔
      ∀ text : String, Admits mode source.toList text.toList := by
  have hsegments : (parse source).matchesEverything = true ↔
      ∀ text, (parse source).Matches mode text := matchesEverything_ofSegments_iff
  rw [hsegments]
  exact forall_congr' fun text => matches_parse_iff

end Pattern

end ChannelDirectory
