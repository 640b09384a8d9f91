import ChannelDirectory.Pattern.Matching
import Mathlib.Data.List.Infix

/-!
# Matching decided

`Pattern.matchesText` keeps the rests of the text that the segments so far can leave, and
`Pattern.Matches` asks for one way to cut the text. They agree (`Pattern.matchesText_iff`).

What carries the proof is that the rests are kept longest first, each one an end of those
before it (`Segment.Descending`). A `*` may then look at the longest rest alone
(`Segment.mem_advance`), and every segment keeps the order
(`Segment.Descending.advance`).
-/

namespace ChannelDirectory

namespace Segment

variable {mode : CaseMode}

/-! ## Cuts -/

theorem cut_nil_iff {text : List Char} : Cut mode [] text ↔ text = [] := by
  constructor
  · rintro ⟨⟩
    rfl
  · rintro rfl
    exact .nil

/-- A text is cut into a piece that the first segment covers, and a rest that the others cut. -/
theorem cut_cons_iff {segment : Segment} {segments : List Segment} {text : List Char} :
    Cut mode (segment :: segments) text ↔
      ∃ piece rest, text = piece ++ rest ∧ segment.Covers mode piece ∧ Cut mode segments rest := by
  constructor
  · rintro (_ | ⟨hpiece, hrest⟩)
    exact ⟨_, _, rfl, hpiece, hrest⟩
  · rintro ⟨piece, rest, rfl, hpiece, hrest⟩
    exact .cons hpiece hrest

/-! ## Rests -/

/-- A literal is dropped from a text that begins with it, up to case where case does not count. -/
theorem dropLiteral?_eq_some_iff {cs text rest : List Char} :
    dropLiteral? mode cs text = some rest ↔
      ∃ piece, piece.map mode.key = cs.map mode.key ∧ piece ++ rest = text := by
  induction cs generalizing text with
  | nil =>
    simp only [dropLiteral?, Option.some.injEq, List.map_nil, List.map_eq_nil_iff, exists_eq_left,
      List.nil_append]
    exact eq_comm
  | cons c cs ih =>
    cases text with
    | nil =>
      simp only [dropLiteral?, reduceCtorEq, false_iff, not_exists, not_and]
      intro piece hpiece hnil
      simp [(List.append_eq_nil_iff.mp hnil).1] at hpiece
    | cons d text =>
      rw [dropLiteral?]
      by_cases hkey : mode.key c = mode.key d
      · rw [if_pos hkey, ih]
        constructor
        · rintro ⟨piece, hpiece, rfl⟩
          exact ⟨d :: piece, by simp [hpiece, hkey], rfl⟩
        · rintro ⟨_ | ⟨e, piece⟩, hpiece, htext⟩
          · simp at hpiece
          · obtain ⟨rfl, rfl⟩ := List.cons.inj htext
            exact ⟨piece, (List.cons.inj hpiece).2, rfl⟩
      · rw [if_neg hkey]
        simp only [reduceCtorEq, false_iff, not_exists, not_and]
        rintro (_ | ⟨e, piece⟩) hpiece htext
        · simp at hpiece
        · obtain ⟨rfl, rfl⟩ := List.cons.inj htext
          exact hkey (List.cons.inj hpiece).1.symm

/-- The ends of a text are its suffixes. -/
theorem mem_ends {text rest : List Char} : rest ∈ ends text ↔ rest <:+ text := by
  induction text with
  | nil => simp [ends]
  | cons c cs ih => rw [ends, List.mem_cons, ih, List.suffix_cons_iff]

/-- Longest first, each one an end of those before it. -/
def Descending (rests : List (List Char)) : Prop :=
  rests.Pairwise fun longer shorter => shorter <:+ longer

theorem descending_singleton (text : List Char) : Descending [text] :=
  List.pairwise_singleton _ _

theorem descending_ends (text : List Char) : Descending (ends text) := by
  induction text with
  | nil => exact descending_singleton []
  | cons c cs ih =>
    refine List.pairwise_cons.mpr ⟨?_, ih⟩
    intro rest hrest
    exact (mem_ends.mp hrest).trans (List.suffix_cons c cs)

/-- Taking the same length off two ends of a text keeps the shorter one an end of the
longer one. -/
theorem suffix_of_append_suffix {piece piece' rest rest' : List Char}
    (hlength : piece'.length = piece.length) (h : piece' ++ rest' <:+ piece ++ rest) :
    rest' <:+ rest := by
  have hrest' : rest' <:+ piece ++ rest := (List.suffix_append piece' rest').trans h
  refine List.suffix_of_suffix_length_le hrest' (List.suffix_append piece rest) ?_
  have := h.length_le
  simp only [List.length_append] at this
  omega

/-- A segment keeps the rests in order. -/
theorem Descending.advance {rests : List (List Char)} (h : Descending rests) (segment : Segment) :
    Descending (segment.advance mode rests) := by
  cases segment with
  | literal text =>
    refine List.pairwise_filterMap.mpr (h.imp ?_)
    rintro longer shorter hsuffix rest hrest rest' hrest'
    obtain ⟨piece, hpiece, rfl⟩ := dropLiteral?_eq_some_iff.mp hrest
    obtain ⟨piece', hpiece', rfl⟩ := dropLiteral?_eq_some_iff.mp hrest'
    refine suffix_of_append_suffix ?_ hsuffix
    simpa using congrArg List.length (hpiece'.trans hpiece.symm)
  | anyChar =>
    refine List.pairwise_filterMap.mpr (h.imp ?_)
    rintro (_ | ⟨c, longer⟩) (_ | ⟨d, shorter⟩) hsuffix rest hrest rest' hrest' <;> cases hrest <;>
      cases hrest'
    have hlength : [d].length = [c].length := rfl
    exact suffix_of_append_suffix hlength hsuffix
  | anySequence =>
    cases rests with
    | nil => exact List.Pairwise.nil
    | cons longest rests => exact descending_ends longest

/-- What a segment can leave is a rest from before it without a piece that it covers. -/
theorem mem_advance {rests : List (List Char)} (h : Descending rests) {segment : Segment}
    {rest : List Char} :
    rest ∈ segment.advance mode rests ↔
      ∃ piece, segment.Covers mode piece ∧ piece ++ rest ∈ rests := by
  cases segment with
  | literal text =>
    rw [advance, List.mem_filterMap]
    constructor
    · rintro ⟨before, hbefore, hdrop⟩
      obtain ⟨piece, hpiece, rfl⟩ := dropLiteral?_eq_some_iff.mp hdrop
      exact ⟨piece, hpiece, hbefore⟩
    · rintro ⟨piece, hpiece, hbefore⟩
      exact ⟨piece ++ rest, hbefore, dropLiteral?_eq_some_iff.mpr ⟨piece, hpiece, rfl⟩⟩
  | anyChar =>
    rw [advance, List.mem_filterMap]
    constructor
    · rintro ⟨_ | ⟨c, before⟩, hbefore, htail⟩ <;> cases htail
      exact ⟨[c], rfl, hbefore⟩
    · rintro ⟨piece, hpiece, hbefore⟩
      obtain ⟨c, rfl⟩ := List.length_eq_one_iff.mp hpiece
      exact ⟨c :: rest, hbefore, rfl⟩
  | anySequence =>
    cases rests with
    | nil => simp [advance]
    | cons longest rests =>
      rw [advance, mem_ends]
      constructor
      · rintro ⟨piece, hpiece⟩
        exact ⟨piece, trivial, hpiece ▸ List.mem_cons_self⟩
      · rintro ⟨piece, -, hmem⟩
        have hsuffix : piece ++ rest <:+ longest := by
          rcases List.mem_cons.mp hmem with heq | hlater
          · exact heq ▸ List.suffix_rfl
          · exact (List.pairwise_cons.mp h).1 _ hlater
        exact (List.suffix_append piece rest).trans hsuffix

/-- What a list of segments can leave is a rest from before them without a text that they
cut. -/
theorem mem_foldl_advance {segments : List Segment} {starts : List (List Char)}
    (h : Descending starts) {rest : List Char} :
    rest ∈ segments.foldl (fun rests segment => segment.advance mode rests) starts ↔
      ∃ front, Cut mode segments front ∧ front ++ rest ∈ starts := by
  induction segments generalizing starts with
  | nil => simp [cut_nil_iff]
  | cons segment segments ih =>
    rw [List.foldl_cons, ih (h.advance segment)]
    constructor
    · rintro ⟨front, hfront, hmem⟩
      obtain ⟨piece, hpiece, hstart⟩ := (mem_advance h).mp hmem
      exact ⟨piece ++ front, .cons hpiece hfront, by rwa [List.append_assoc]⟩
    · rintro ⟨front, hfront, hmem⟩
      obtain ⟨piece, later, rfl, hpiece, hlater⟩ := cut_cons_iff.mp hfront
      rw [List.append_assoc] at hmem
      exact ⟨later, hlater, (mem_advance h).mpr ⟨piece, hpiece, hmem⟩⟩

end Segment

open Segment

/-- The rests decide whether the pattern matches. -/
theorem Pattern.matchesText_iff {mode : CaseMode} {p : Pattern} {text : String} :
    p.matchesText mode text = true ↔ p.Matches mode text := by
  rw [matchesText, List.contains_iff_mem, rests, mem_foldl_advance (descending_singleton _),
    Matches]
  simp

end ChannelDirectory
