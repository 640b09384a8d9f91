import Mathlib.Data.List.Chain
import ChannelDirectory.Proofs.Pattern.Display
import ChannelDirectory.Proofs.Pattern.Expression

/-!
# Segments in normal form

Segments are in normal form if no literal is empty and no two neighbours could be one segment
(`Segment.Normal`). `Pattern.ofSegments` brings any segments into it, leaves those alone that are in
it, and changes nothing about the texts that are matched (`Pattern.ofSegments_in_normal_form`).

It can be done from either end. `Segment.normalize` puts segments in front, one by one.
`Segment.addLast` adds one at the end, and looks at nothing but the segment that was kept last. Such
a step keeps the normal form (`Segment.Normal.addLast`), and its outcome stands for the segments and
the one that was added, whatever comes after them (`Segment.foldr_addLast`). So both ways lead to
the same segments (`Segment.normalize_eq_foldl`), and of two lists, either may be brought into
normal form before they are joined (`Segment.normalize_append`).
-/

namespace ChannelDirectory

namespace Segment

/-- The segments stay two where they meet : they are not both literals and not both `*`. -/
def Apart (first second : Segment) : Prop :=
  ¬(first.isLiteral ∧ second.isLiteral) ∧ ¬(first = anySequence ∧ second = anySequence)

/-- No literal is empty, no two literals are neighbours, and no two `*` are. -/
structure Normal (segments : List Segment) : Prop where
  noEmpty : literal "" ∉ segments
  apart : segments.IsChain Apart

/-- Adds a segment after segments. A literal makes the last one longer if that is a literal, and is
dropped if it is empty, and a `*` is dropped after a `*`. -/
def addLast (segments : List Segment) (segment : Segment) : List Segment :=
  match segments.getLast?, segment with
  | some (literal last), literal next => segments.dropLast ++ [literal (last ++ next)]
  | some anySequence, anySequence => segments
  | _, literal next => if next = "" then segments else segments ++ [literal next]
  | _, segment => segments ++ [segment]

variable {segments : List Segment} {segment : Segment}

theorem apart_literal_iff {text : String} :
    Apart segment (literal text) ↔ segment.isLiteral = false := by
  simp [Apart, isLiteral]

theorem normal_nil : Normal [] :=
  ⟨List.not_mem_nil, .nil⟩

theorem normal_cons_iff :
    Normal (segment :: segments) ↔
      segment ≠ literal "" ∧ (∀ next ∈ segments.head?, Apart segment next) ∧ Normal segments := by
  constructor
  · rintro ⟨hempty, hapart⟩
    rw [List.mem_cons, not_or] at hempty
    rw [List.isChain_cons] at hapart
    exact ⟨Ne.symm hempty.1, hapart.1, hempty.2, hapart.2⟩
  · rintro ⟨hne, hnext, h⟩
    constructor
    · rw [List.mem_cons, not_or]
      exact ⟨Ne.symm hne, h.noEmpty⟩
    · exact List.isChain_cons.mpr ⟨hnext, h.apart⟩

theorem normal_concat_iff :
    Normal (segments ++ [segment]) ↔
      Normal segments ∧ segment ≠ literal "" ∧ ∀ last ∈ segments.getLast?, Apart last segment := by
  constructor
  · rintro ⟨hempty, hapart⟩
    rw [List.mem_append, not_or, List.mem_singleton] at hempty
    rw [List.isChain_append] at hapart
    exact ⟨⟨hempty.1, hapart.1⟩, Ne.symm hempty.2, fun last hlast => hapart.2.2 last hlast _ rfl⟩
  · rintro ⟨h, hne, hlast⟩
    constructor
    · rw [List.mem_append, not_or, List.mem_singleton]
      exact ⟨h.noEmpty, Ne.symm hne⟩
    · refine List.isChain_append.mpr ⟨h.apart, List.isChain_singleton _, ?_⟩
      rintro last hmem _ ⟨⟩
      exact hlast last hmem

/-! ## Nothing to do -/

theorem Normal.prepend_eq (h : Normal (segment :: segments)) :
    prepend segment segments = segment :: segments := by
  obtain ⟨hne, hnext, -⟩ := normal_cons_iff.mp h
  fun_cases prepend segment segments with
  | case1 => exact absurd rfl hne
  | case2 => exact absurd ⟨rfl, rfl⟩ (hnext _ rfl).1
  | case4 => exact absurd ⟨rfl, rfl⟩ (hnext _ rfl).2
  | case3 | case5 => rfl

/-- Segments in normal form are left as they are. -/
theorem Normal.normalize_eq (h : Normal segments) : normalize segments = segments := by
  induction segments with
  | nil => rfl
  | cons segment segments ih =>
    rw [normalize_cons, ih (normal_cons_iff.mp h).2.2, h.prepend_eq]

/-! ## One segment more -/

/-- A segment at the end keeps the normal form. -/
theorem Normal.addLast (h : Normal segments) (segment : Segment) :
    Normal (addLast segments segment) := by
  fun_cases Segment.addLast segments segment with
  | case1 last next hlast =>
    rw [← List.dropLast_append_getLast? _ hlast, normal_concat_iff] at h
    obtain ⟨hinit, hne, hbefore⟩ := h
    -- The literal at the end is another one now, and stands apart from what the old one did.
    have hnonempty : last ≠ "" := by simpa using hne
    refine normal_concat_iff.mpr ⟨hinit, by simp [hnonempty], ?_⟩
    simpa only [apart_literal_iff] using hbefore
  | case2 | case3 => exact h
  | case4 next hnonempty hliteral =>
    refine normal_concat_iff.mpr ⟨h, by simpa using hnonempty, fun last hlast => ?_⟩
    rw [apart_literal_iff]
    cases last with
    | literal text => exact absurd hlast (hliteral text)
    | anyChar | anySequence => rfl
  | case5 segment hsegment _ hsequence =>
    refine normal_concat_iff.mpr ⟨h, hsegment "", fun last hlast => ?_⟩
    cases segment with
    | literal text => exact absurd rfl (hsegment text)
    | anyChar => simp [Apart, isLiteral]
    | anySequence =>
      have hother : last ≠ anySequence := fun heq => hsequence (heq ▸ hlast) rfl
      simp [Apart, isLiteral, hother]

theorem prepend_anySequence_twice (segments : List Segment) :
    prepend anySequence (prepend anySequence segments) = prepend anySequence segments := by
  cases segments with
  | nil => rfl
  | cons segment segments => cases segment <;> rfl

/-- A segment that was added stands for itself, whatever comes after it. -/
theorem foldr_addLast (segments : List Segment) (segment : Segment) (rest : List Segment) :
    (addLast segments segment).foldr prepend rest =
      segments.foldr prepend (prepend segment rest) := by
  fun_cases addLast segments segment with
  | case1 last next hlast =>
    have hsegments := List.dropLast_append_getLast? _ hlast
    calc (segments.dropLast ++ [literal (last ++ next)]).foldr prepend rest
        = segments.dropLast.foldr prepend (prepend (literal (last ++ next)) rest) :=
          List.foldr_append
      _ = (segments.dropLast ++ [literal last]).foldr prepend (prepend (literal next) rest) := by
          rw [prepend_literal_append, List.foldr_append, List.foldr_cons, List.foldr_nil]
      _ = segments.foldr prepend (prepend (literal next) rest) := by rw [hsegments]
  | case2 hlast =>
    rw [← List.dropLast_append_getLast? _ hlast, List.foldr_append, List.foldr_append,
      List.foldr_cons, List.foldr_nil, List.foldr_cons, List.foldr_nil, prepend_anySequence_twice]
  | case3 => rfl
  | case4 | case5 => exact List.foldr_append

/-! ## All segments -/

theorem normal_foldl_addLast (h : Normal segments) (more : List Segment) :
    Normal (more.foldl addLast segments) := by
  induction more generalizing segments with
  | nil => exact h
  | cons segment more ih => exact ih (h.addLast segment)

/-- Segments that are added one after another make the same pattern as at once. -/
theorem normalize_foldl_addLast (segments more : List Segment) :
    normalize (more.foldl addLast segments) = normalize (segments ++ more) := by
  induction more generalizing segments with
  | nil => rw [List.foldl_nil, List.append_nil]
  | cons segment more ih =>
    rw [List.foldl_cons, ih, normalize, normalize, List.foldr_append, List.foldr_append,
      foldr_addLast, List.foldr_cons]

/-- The normal form is what adding the segments one after another leads to. -/
theorem normalize_eq_foldl (segments : List Segment) :
    normalize segments = segments.foldl addLast [] := by
  rw [← (normal_foldl_addLast normal_nil segments).normalize_eq, normalize_foldl_addLast,
    List.nil_append]

theorem normal_normalize (segments : List Segment) : Normal (normalize segments) := by
  rw [normalize_eq_foldl]
  exact normal_foldl_addLast normal_nil segments

theorem normalize_eq_self_iff : normalize segments = segments ↔ Normal segments := by
  constructor
  · intro h
    rw [← h]
    exact normal_normalize segments
  · exact Normal.normalize_eq

theorem normalize_append_eq_foldr (segments more : List Segment) :
    normalize (segments ++ more) = segments.foldr prepend (normalize more) :=
  List.foldr_append

/-- Lists of segments may be brought into normal form before they are joined. -/
theorem normalize_append (segments more : List Segment) :
    normalize (segments ++ more) = normalize (normalize segments ++ normalize more) := by
  have hfirst : normalize (segments ++ more) = normalize (normalize segments ++ more) := by
    rw [← normalize_foldl_addLast (normalize segments), normalize_eq_foldl segments,
      ← List.foldl_append, ← normalize_eq_foldl, normalize_normalize]
  rw [hfirst, normalize_append_eq_foldr, normalize_append_eq_foldr, normalize_normalize]

end Segment

open Expression Segment

namespace Pattern

/-- Any segments make a pattern that matches the same texts as the segments themselves, and so does
its expression. The segments of the pattern are in normal form, they are the ones given exactly if
those are in normal form, so that nothing changes when it is done again, and of two lists, both may
be brought into it before they are joined. They are what adding the given ones one after another
leads to. -/
theorem ofSegments_in_normal_form (segments more : List Segment) :
    (∀ mode text,
        (ofSegments segments).matchesText mode text =
            (⟨segments⟩ : Pattern).matchesText mode text ∧
          (Finds mode (ofSegments segments).expression text ↔
            Finds mode (⟨segments⟩ : Pattern).expression text)) ∧
      Normal (ofSegments segments).segments ∧
      (ofSegments segments = ⟨segments⟩ ↔ Normal segments) ∧
      ofSegments (ofSegments segments).segments = ofSegments segments ∧
      ofSegments (segments ++ more) =
        ofSegments ((ofSegments segments).segments ++ (ofSegments more).segments) ∧
      (ofSegments segments).segments = segments.foldl addLast [] := by
  have hmatches : ∀ mode text,
      (ofSegments segments).Matches mode text ↔ (⟨segments⟩ : Pattern).Matches mode text :=
    fun _ _ => cut_normalize_iff
  refine ⟨fun mode text => ⟨?_, ?_⟩, normal_normalize segments, ?_, ?_, ?_,
    normalize_eq_foldl segments⟩
  · rw [Bool.eq_iff_iff, matchesText_iff, matchesText_iff, hmatches]
  · rw [finds_expression_iff, finds_expression_iff, hmatches]
  · rw [ofSegments, mk.injEq, normalize_eq_self_iff]
  · exact congrArg mk (normalize_normalize segments)
  · exact congrArg mk (normalize_append segments more)

/-- Stars and literals with nothing but empty literals between them. -/
example : ofSegments [.literal "", .anySequence, .literal "", .anySequence, .literal "a",
    .literal "", .literal "b", .anyChar] = ⟨[.anySequence, .literal "ab", .anyChar]⟩ := by decide

end Pattern

end ChannelDirectory
