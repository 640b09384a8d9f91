import Mathlib.Data.List.Forall2
import ChannelDirectory.Proofs.Pattern.Matching

/-!
# Patterns as regular expressions

What a pattern matches is said by pieces of the text : one after another, one for each segment
(`Segment.IsPiece`). The matcher of this library decides it, and so does a matcher for regular
expressions (`Pattern.matchesText_iff_pieces`).

A pattern can be left to a matcher for regular expressions. `Pattern.expression` writes it in
their language : literals are escaped, `?` is a dot, `*` is a dot that may be repeated, and the
whole is anchored at both ends. `Expression.Finds` is what that language promises of such a
source. A source is first cut into tokens, where a backslash takes the meaning off the character
after it, then a star belongs to the item before it, and the items are passed one after another
from some place of the text on. A dot passes any character, the end of a line included.

That the source says what the pattern means (`Pattern.finds_expression_iff`) rests on the escapes.
No character of a literal is taken for an item of another kind (`Expression.tokens?_escape`), and
none of them is taken for a star after the item before it (`Expression.items?_segments`).
-/

namespace ChannelDirectory

namespace Expression

/-! ## The language -/

/-- The character has a meaning of its own in an expression. -/
def isMeta (c : Char) : Bool :=
  c ∈ ['\\', '.', '+', '*', '?', '(', ')', '|', '[', ']', '{', '}', '^', '$', '#', '&', '-', '~']

/-- What passes one character. -/
inductive Atom where
  | char (c : Char)
  | any

/-- A piece of the source of an expression. -/
inductive Token where
  | start
  | finish
  | atom (a : Atom)
  | star

/-- A part of an expression. -/
inductive Item where
  /-- The beginning of the text. -/
  | start
  /-- The end of the text. -/
  | finish
  /-- One character. -/
  | one (a : Atom)
  /-- Any number of characters. -/
  | many (a : Atom)

/-- The tokens of a source, if it has no others than these. -/
def tokens? : List Char → Option (List Token)
  | [] => some []
  | '^' :: cs => (tokens? cs).map (.start :: ·)
  | '$' :: cs => (tokens? cs).map (.finish :: ·)
  | '*' :: cs => (tokens? cs).map (.star :: ·)
  | '.' :: cs => (tokens? cs).map (.atom .any :: ·)
  | '\\' :: c :: cs => if isMeta c then (tokens? cs).map (.atom (.char c) :: ·) else none
  | c :: cs => if isMeta c then none else (tokens? cs).map (.atom (.char c) :: ·)

/-- The items that tokens make. A star needs an atom before it. -/
def items? : List Token → Option (List Item)
  | [] => some []
  | .start :: ts => (items? ts).map (.start :: ·)
  | .finish :: ts => (items? ts).map (.finish :: ·)
  | .atom a :: .star :: ts => (items? ts).map (.many a :: ·)
  | .atom a :: ts => (items? ts).map (.one a :: ·)
  | .star :: _ => none

/-- The atom passes the character. -/
def Atom.Accepts (mode : CaseMode) : Atom → Char → Prop
  | char c, d => mode.key d = mode.key c
  | any, _ => True

/-- The items can be passed from a place of a text on, which has some characters before it and
some after it. -/
inductive Passes (mode : CaseMode) : List Item → List Char → List Char → Prop where
  | nil {before after : List Char} : Passes mode [] before after
  | start {items : List Item} {after : List Char} :
      Passes mode items [] after → Passes mode (.start :: items) [] after
  | finish {items : List Item} {before : List Char} :
      Passes mode items before [] → Passes mode (.finish :: items) before []
  | one {a : Atom} {items : List Item} {before after : List Char} {d : Char} :
      a.Accepts mode d → Passes mode items (before ++ [d]) after →
        Passes mode (.one a :: items) before (d :: after)
  | none {a : Atom} {items : List Item} {before after : List Char} :
      Passes mode items before after → Passes mode (.many a :: items) before after
  | more {a : Atom} {items : List Item} {before after : List Char} {d : Char} :
      a.Accepts mode d → Passes mode (.many a :: items) (before ++ [d]) after →
        Passes mode (.many a :: items) before (d :: after)

/-- The expression of a source is found in a text, somewhere. -/
def Finds (mode : CaseMode) (source text : String) : Prop :=
  ∃ found, (tokens? source.toList).bind items? = some found ∧
    ∃ before after, before ++ after = text.toList ∧ Passes mode found before after

/-- Characters that stand for themselves in a source. -/
def escape (text : List Char) : List Char :=
  text.flatMap fun c => if isMeta c then ['\\', c] else [c]

end Expression

/-- The source of a segment. -/
def Segment.expression : Segment → List Char
  | literal text => Expression.escape text.toList
  | anyChar => ['.']
  | anySequence => ['.', '*']

/-- The source of the expression that stands for a pattern. -/
def Pattern.expression (p : Pattern) : String :=
  String.ofList ('^' :: (p.segments.flatMap Segment.expression ++ ['$']))

namespace Expression

variable {mode : CaseMode}

/-! ## Reading the source -/

/-- The tokens of a segment. -/
def segmentTokens : Segment → List Token
  | .literal text => text.toList.map fun c => .atom (.char c)
  | .anyChar => [.atom .any]
  | .anySequence => [.atom .any, .star]

/-- The items of a segment. -/
def segmentItems : Segment → List Item
  | .literal text => text.toList.map fun c => .one (.char c)
  | .anyChar => [.one .any]
  | .anySequence => [.many .any]

/-- A character without special meaning is read as itself. -/
theorem tokens?_plain {c : Char} (h : isMeta c = false) (cs : List Char) :
    tokens? (c :: cs) = (tokens? cs).map (.atom (.char c) :: ·) := by
  have hne : ∀ d, isMeta d = true → c ≠ d := by
    rintro d hd rfl
    rw [h] at hd
    cases hd
  rw [tokens?, if_neg (by rw [h]; decide)]
  · exact hne '^' (by decide)
  · exact hne '$' (by decide)
  · exact hne '*' (by decide)
  · exact hne '.' (by decide)
  · exact fun _ _ hc => absurd hc (hne '\\' (by decide))

/-- An escaped character is read as itself. -/
theorem tokens?_escaped {c : Char} (h : isMeta c = true) (cs : List Char) :
    tokens? ('\\' :: c :: cs) = (tokens? cs).map (.atom (.char c) :: ·) := by
  rw [tokens?, if_pos h]

/-- An escaped text is read as its characters, each for itself. -/
theorem tokens?_escape (text cs : List Char) :
    tokens? (escape text ++ cs) =
      (tokens? cs).map (text.map (fun c => .atom (.char c)) ++ ·) := by
  induction text with
  | nil => simp [escape]
  | cons c text ih =>
    have hfirst : tokens? (escape (c :: text) ++ cs) =
        (tokens? (escape text ++ cs)).map (.atom (.char c) :: ·) := by
      cases hmeta : isMeta c with
      | true =>
        rw [← tokens?_escaped hmeta]
        simp [escape, hmeta]
      | false =>
        rw [← tokens?_plain hmeta]
        simp [escape, hmeta]
    rw [hfirst, ih, Option.map_map]
    rfl

/-- The expression of segments is read as the tokens of each. -/
theorem tokens?_segments (segments : List Segment) :
    tokens? (segments.flatMap Segment.expression ++ ['$']) =
      some (segments.flatMap segmentTokens ++ [.finish]) := by
  induction segments with
  | nil => rfl
  | cons segment segments ih =>
    rw [List.flatMap_cons, List.append_assoc, List.flatMap_cons, List.append_assoc]
    cases segment with
    | literal text => rw [Segment.expression, tokens?_escape, ih, Option.map_some, segmentTokens]
    | anyChar =>
      rw [Segment.expression, List.singleton_append, tokens?, ih]
      rfl
    | anySequence =>
      rw [Segment.expression, List.cons_append, List.singleton_append, tokens?, tokens?, ih]
      rfl

/-- No star stands first. -/
def Unstarred (ts : List Token) : Prop :=
  ∀ rest, ts ≠ .star :: rest

theorem items?_atom {ts : List Token} (h : Unstarred ts) (a : Atom) :
    items? (.atom a :: ts) = (items? ts).map (.one a :: ·) :=
  items?.eq_5 a ts h

theorem unstarred_literal {ts : List Token} (h : Unstarred ts) (text : List Char) :
    Unstarred (text.map (fun c => .atom (.char c)) ++ ts) := by
  cases text with
  | nil => exact h
  | cons c text => rintro rest ⟨⟩

/-- Characters that no star follows are items of their own. -/
theorem items?_literal {ts : List Token} (h : Unstarred ts) (text : List Char) :
    items? (text.map (fun c => .atom (.char c)) ++ ts) =
      (items? ts).map (text.map (fun c => .one (.char c)) ++ ·) := by
  induction text with
  | nil => simp
  | cons c text ih =>
    rw [List.map_cons, List.cons_append, items?_atom (unstarred_literal h text), ih, Option.map_map]
    rfl

theorem unstarred_segments (segments : List Segment) :
    Unstarred (segments.flatMap segmentTokens ++ [.finish]) := by
  induction segments with
  | nil => rintro rest ⟨⟩
  | cons segment segments ih =>
    rw [List.flatMap_cons, List.append_assoc]
    cases segment with
    | literal text => exact unstarred_literal ih text.toList
    | anyChar | anySequence => rintro rest ⟨⟩

/-- What follows a dot is its own star or the next segment, which does not begin with one. -/
theorem items?_segments (segments : List Segment) :
    items? (segments.flatMap segmentTokens ++ [.finish]) =
      some (segments.flatMap segmentItems ++ [.finish]) := by
  induction segments with
  | nil => rfl
  | cons segment segments ih =>
    have hnext := unstarred_segments segments
    rw [List.flatMap_cons, List.append_assoc, List.flatMap_cons, List.append_assoc]
    cases segment with
    | literal text =>
      rw [segmentTokens, items?_literal hnext, ih, segmentItems]
      rfl
    | anyChar =>
      rw [segmentTokens, List.singleton_append, items?_atom hnext, ih]
      rfl
    | anySequence =>
      rw [segmentTokens, List.cons_append, List.singleton_append, items?, ih]
      rfl

/-- The source of a pattern reads as an anchor, the items of the segments and an anchor. -/
theorem read_expression (p : Pattern) :
    (tokens? p.expression.toList).bind items? =
      some (.start :: (p.segments.flatMap segmentItems ++ [.finish])) := by
  rw [Pattern.expression, String.toList_ofList, tokens?, tokens?_segments, Option.map_some,
    Option.bind_some, items?, items?_segments, Option.map_some]

/-! ## Passing the items -/

variable {items : List Item} {before after : List Char}

/-- Literal characters pass a piece of the text that is the same up to case. -/
theorem passes_literal_iff {text : List Char} :
    Passes mode (text.map (fun c => .one (.char c)) ++ items) before after ↔
      ∃ piece rest, after = piece ++ rest ∧ piece.map mode.key = text.map mode.key ∧
        Passes mode items (before ++ piece) rest := by
  induction text generalizing before after with
  | nil => simp
  | cons c text ih =>
    constructor
    · intro h
      cases h with
      | one hd hrest =>
        obtain ⟨piece, rest, rfl, hpiece, hitems⟩ := ih.mp hrest
        refine ⟨_ :: piece, rest, rfl, ?_, ?_⟩
        · rw [List.map_cons, hd, hpiece, List.map_cons]
        · simpa using hitems
    · rintro ⟨piece, rest, rfl, hpiece, hitems⟩
      obtain ⟨d, piece, rfl, hd, hpiece⟩ := List.map_eq_cons_iff.mp hpiece
      refine .one hd (ih.mpr ⟨piece, rest, rfl, hpiece, ?_⟩)
      simpa using hitems

/-- A repeated dot passes any piece of the text. -/
theorem passes_many_any_iff :
    Passes mode (.many .any :: items) before after ↔
      ∃ piece rest, after = piece ++ rest ∧ Passes mode items (before ++ piece) rest := by
  constructor
  · intro h
    generalize hmany : (Item.many .any :: items) = list at h
    induction h with
    | none hitems =>
      obtain ⟨-, rfl⟩ := List.cons.inj hmany
      exact ⟨[], _, rfl, by simpa using hitems⟩
    | more _ _ ih =>
      obtain ⟨piece, rest, rfl, hitems⟩ := ih hmany
      exact ⟨_ :: piece, rest, rfl, by simpa using hitems⟩
    | _ => cases hmany
  · rintro ⟨piece, rest, rfl, hitems⟩
    induction piece generalizing before with
    | nil => exact .none (by simpa using hitems)
    | cons d piece ih => exact .more trivial (ih (by simpa using hitems))

/-- A segment passes over a piece that it covers. -/
theorem passes_segment_iff {segment : Segment} :
    Passes mode (segmentItems segment ++ items) before after ↔
      ∃ piece rest, after = piece ++ rest ∧ segment.Covers mode piece ∧
        Passes mode items (before ++ piece) rest := by
  cases segment with
  | literal text => exact passes_literal_iff
  | anyChar =>
    constructor
    · intro h
      cases h with
      | one _ hitems => exact ⟨[_], _, rfl, rfl, hitems⟩
    · rintro ⟨piece, rest, rfl, hpiece, hitems⟩
      obtain ⟨d, rfl⟩ := List.length_eq_one_iff.mp hpiece
      exact .one trivial hitems
  | anySequence => simpa [segmentItems, Segment.Covers] using passes_many_any_iff

/-- The items of segments pass all that is left of a text exactly if they cut it. -/
theorem passes_segments_iff {segments : List Segment} :
    Passes mode (segments.flatMap segmentItems ++ [.finish]) before after ↔
      Segment.Cut mode segments after := by
  induction segments generalizing before after with
  | nil =>
    rw [Segment.cut_nil_iff]
    constructor
    · intro h
      cases h
      rfl
    · rintro rfl
      exact .finish .nil
  | cons segment segments ih =>
    rw [List.flatMap_cons, List.append_assoc, passes_segment_iff, Segment.cut_cons_iff]
    simp only [ih]

end Expression

open Expression

/-- The expression of a pattern is found in the texts that the pattern matches. -/
theorem Pattern.finds_expression_iff {mode : CaseMode} {p : Pattern} {text : String} :
    Finds mode p.expression text ↔ p.Matches mode text := by
  rw [Finds, read_expression, Pattern.Matches]
  constructor
  · rintro ⟨found, hfound, before, after, htext, hpasses⟩
    obtain rfl := Option.some.inj hfound
    cases hpasses with
    | start hpasses => rwa [← htext, List.nil_append, ← passes_segments_iff]
  · intro h
    exact ⟨_, rfl, [], text.toList, rfl, .start (passes_segments_iff.mpr h)⟩

/-! ## Pieces -/

/-- The characters are the same or, if case does not count, have the same simple case folding. -/
def CaseMode.Same : CaseMode → Char → Char → Prop
  | .sensitive, c, d => c = d
  | .insensitive, c, d => Text.foldCase c = Text.foldCase d

/-- A part of a text is what a segment stands for : the literal character by character, one
character, or anything. -/
inductive Segment.IsPiece (mode : CaseMode) : Segment → List Char → Prop where
  | literal {text : String} {piece : List Char} :
      List.Forall₂ mode.Same text.toList piece → IsPiece mode (.literal text) piece
  | anyChar (c : Char) : IsPiece mode .anyChar [c]
  | anySequence (piece : List Char) : IsPiece mode .anySequence piece

theorem CaseMode.same_eq (mode : CaseMode) : mode.Same = fun c d => mode.key c = mode.key d := by
  cases mode <;> rfl

namespace Segment

variable {mode : CaseMode}

/-- The pieces of a segment are the texts that it covers. -/
theorem isPiece_iff {segment : Segment} {piece : List Char} :
    IsPiece mode segment piece ↔ segment.Covers mode piece := by
  have hliteral : ∀ text : String, List.Forall₂ mode.Same text.toList piece ↔
      piece.map mode.key = text.toList.map mode.key := by
    intro text
    rw [eq_comm, ← List.forall₂_eq_eq_eq, List.forall₂_map_left_iff, List.forall₂_map_right_iff,
      mode.same_eq]
  constructor
  · rintro (h | _ | _)
    · exact (hliteral _).mp h
    · rfl
    · trivial
  · intro h
    cases segment with
    | literal text => exact .literal ((hliteral text).mpr h)
    | anyChar =>
      obtain ⟨c, rfl⟩ := List.length_eq_one_iff.mp h
      exact .anyChar c
    | anySequence => exact .anySequence piece

/-- Segments cut a text exactly if it consists of pieces for them. -/
theorem cut_iff_exists_pieces {segments : List Segment} {text : List Char} :
    Cut mode segments text ↔
      ∃ pieces : List (List Char), pieces.flatten = text ∧
        List.Forall₂ (IsPiece mode) segments pieces := by
  constructor
  · intro h
    induction h with
    | nil => exact ⟨[], rfl, .nil⟩
    | cons hpiece _ ih =>
      obtain ⟨pieces, rfl, hpieces⟩ := ih
      exact ⟨_ :: pieces, rfl, .cons (isPiece_iff.mpr hpiece) hpieces⟩
  · rintro ⟨pieces, rfl, hpieces⟩
    induction hpieces with
    | nil => exact .nil
    | cons hpiece _ ih => exact .cons (isPiece_iff.mp hpiece) ih

end Segment

/-- A pattern matches the texts that can be cut into consecutive pieces, one for each of its
segments and in their order, whatever the segments are. Its regular expression, which is assumed
not to be too large to be compiled, is found in the same texts. -/
theorem Pattern.matchesText_iff_pieces (mode : CaseMode) (p : Pattern) (text : String) :
    (p.matchesText mode text = true ↔
        ∃ pieces : List (List Char), pieces.flatten = text.toList ∧
          List.Forall₂ (Segment.IsPiece mode) p.segments pieces) ∧
      (Finds mode p.expression text ↔ p.matchesText mode text = true) := by
  rw [matchesText_iff, finds_expression_iff]
  exact ⟨Segment.cut_iff_exists_pieces, Iff.rfl⟩

/-- Segments that are not in normal form, with characters that an expression would take for
something else, and the end of a line. The Kelvin sign is a letter K up to case. -/
example : (⟨[.literal "", .literal "K.", .literal "*$", .anyChar, .anySequence, .anySequence]⟩ :
    Pattern).matchesText .insensitive "\u212a.*$\n" = true := by decide

/-- The sharp s is one letter, not two. -/
example : (⟨[.literal "ẞ"]⟩ : Pattern).matchesText .insensitive "ß" = true ∧
    (⟨[.literal "ẞ"]⟩ : Pattern).matchesText .insensitive "ss" = false := by decide

end ChannelDirectory
