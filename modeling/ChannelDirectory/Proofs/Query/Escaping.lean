import ChannelDirectory.Proofs.Pattern.Display
import ChannelDirectory.Proofs.Query.Partition

/-!
# Escaping a value

A value is read in two stages. It is cut at its separators first, and each part, trimmed, is then
read as a pattern. The backslash belongs to the second stage alone : where one stands before a
separator, the value is cut all the same, and the backslash stays behind at the end of its part,
where it escapes nothing and means itself.

So what a text with a backslash before each reserved character (`Query.escape`) asks for can be
read off the pieces of the text (`Query.remnants`). A piece that ends at a separator keeps its
blanks on the right, for the backslash is behind them, and asks for itself with that backslash. The
last piece is trimmed, and asks for itself if something is left. None of the others can be empty,
so no alternative is dropped but the last.

A text without separators is its own only remnant. Of any other text, the remnants are all shorter
or end in a backslash where the text has a separator (`Query.not_folded_remnant`). Hence a name can
be asked for by escaping it exactly if it has no separator (`Query.escaped_name_found`).
-/

namespace ChannelDirectory

namespace Query

open Text (isBlank pieces trimChars dropBlanksRight)

/-- The character is special in a pattern text, or separates alternatives. -/
def isReserved (c : Char) : Bool :=
  Segment.isSpecial c || isSeparator c

/-- The text with a backslash before each reserved character. -/
def escape (text : String) : String :=
  String.ofList (escapeChars isReserved text.toList)

/-- What the pieces of an escaped text are, given those of the text. A separator takes its backslash
off the character, which stays behind at the end of the piece before it. -/
def escapedPieces : List (List Char) → List (List Char)
  | [] => []
  | [last] => [escapeChars Segment.isSpecial last]
  | piece :: next :: rest =>
    (escapeChars Segment.isSpecial piece ++ ['\\']) :: escapedPieces (next :: rest)

/-- What an escaped text asks for, given the pieces of the text. -/
def remnants : List (List Char) → List (List Char)
  | [] => []
  | [last] => [trimChars last].filter fun part => !part.isEmpty
  | piece :: next :: rest => (piece.dropWhile isBlank ++ ['\\']) :: remnants (next :: rest)

variable {cs : List Char} {c : Char}

/-! ## Blanks and escapes -/

theorem escapeChars_concat (test : Char → Bool) (cs : List Char) (c : Char) :
    escapeChars test (cs ++ [c]) = escapeChars test cs ++ if test c then ['\\', c] else [c] := by
  simp [escapeChars]

theorem isEmpty_escapeChars (test : Char → Bool) (cs : List Char) :
    (escapeChars test cs).isEmpty = cs.isEmpty := by
  cases cs with
  | nil => rfl
  | cons c cs =>
    rw [escapeChars_cons]
    cases test c <;> rfl

theorem not_isBlank_of_isSpecial (h : Segment.isSpecial c = true) : isBlank c = false := by
  simp only [Segment.isSpecial, Bool.or_eq_true, beq_iff_eq] at h
  rcases h with (rfl | rfl) | rfl <;> decide

theorem not_isSpecial_of_isBlank (h : isBlank c = true) : Segment.isSpecial c = false := by
  by_contra hspecial
  rw [not_isBlank_of_isSpecial (Bool.not_eq_false _ ▸ hspecial)] at h
  cases h

theorem dropWhile_escapeChars (cs : List Char) :
    (escapeChars Segment.isSpecial cs).dropWhile isBlank =
      escapeChars Segment.isSpecial (cs.dropWhile isBlank) := by
  induction cs with
  | nil => rfl
  | cons c cs ih =>
    rw [escapeChars_cons]
    cases hblank : isBlank c with
    | true =>
      rw [not_isSpecial_of_isBlank hblank]
      simpa [hblank] using ih
    | false =>
      rw [List.dropWhile_cons_of_neg (by rw [hblank]; decide), escapeChars_cons]
      refine Text.dropWhile_of_clear ?_
      cases Segment.isSpecial c with
      | true => exact fun d hd => Option.some.inj hd ▸ (by decide : isBlank '\\' = false)
      | false => exact fun d hd => Option.some.inj hd ▸ hblank

theorem dropBlanksRight_escapeChars (cs : List Char) :
    dropBlanksRight (escapeChars Segment.isSpecial cs) =
      escapeChars Segment.isSpecial (dropBlanksRight cs) := by
  induction cs using List.reverseRecOn with
  | nil => rfl
  | append_singleton cs c ih =>
    rw [escapeChars_concat]
    cases hblank : isBlank c with
    | true =>
      rw [not_isSpecial_of_isBlank hblank, if_neg (by decide),
        Text.dropBlanksRight_concat_blank hblank, Text.dropBlanksRight_concat_blank hblank, ih]
    | false =>
      rw [Text.dropBlanksRight_concat hblank, escapeChars_concat]
      cases Segment.isSpecial c with
      | true =>
        rw [if_pos rfl, List.append_cons]
        exact Text.dropBlanksRight_concat hblank
      | false => exact Text.dropBlanksRight_concat hblank

theorem trimChars_escapeChars (cs : List Char) :
    trimChars (escapeChars Segment.isSpecial cs) =
      escapeChars Segment.isSpecial (trimChars cs) := by
  rw [trimChars, dropWhile_escapeChars, dropBlanksRight_escapeChars, trimChars]

/-- A backslash at the end keeps the blanks before it. -/
theorem trimChars_escapeChars_concat (cs : List Char) :
    trimChars (escapeChars Segment.isSpecial cs ++ ['\\']) =
      escapeChars Segment.isSpecial (cs.dropWhile isBlank) ++ ['\\'] := by
  have hleft : (escapeChars Segment.isSpecial cs ++ ['\\']).dropWhile isBlank =
      (escapeChars Segment.isSpecial cs).dropWhile isBlank ++ ['\\'] := by
    rw [List.dropWhile_append]
    split
    · next hempty =>
      rw [List.isEmpty_iff.mp hempty]
      rfl
    · rfl
  rw [trimChars, hleft, Text.dropBlanksRight_concat (by decide), dropWhile_escapeChars]

/-! ## Pieces -/

theorem pieces_append {sep : Char → Bool} {front piece : List Char} {rest : List (List Char)}
    (h : ∀ d ∈ front, sep d = false) (hpieces : pieces sep cs = piece :: rest) :
    pieces sep (front ++ cs) = (front ++ piece) :: rest := by
  induction front with
  | nil => exact hpieces
  | cons d front ih =>
    obtain ⟨hd, hfront⟩ := List.forall_mem_cons.mp h
    rw [List.cons_append, pieces, hd, ih hfront]
    rfl

theorem pieces_escapeChars (cs : List Char) :
    pieces isSeparator (escapeChars isReserved cs) = escapedPieces (pieces isSeparator cs) := by
  induction cs with
  | nil => rfl
  | cons c cs ih =>
    obtain ⟨piece, rest, hpieces⟩ := List.exists_cons_of_ne_nil (Text.pieces_ne_nil isSeparator cs)
    rw [hpieces] at ih
    rw [escapeChars_cons, isReserved]
    cases hsep : isSeparator c with
    | true =>
      have hfirst : pieces isSeparator (c :: cs) = [] :: piece :: rest := by
        rw [pieces, hsep, hpieces]
        rfl
      rw [hfirst, escapedPieces, ← ih, Bool.or_true, if_pos rfl]
      -- The backslash is all that stands before the cut.
      have hbackslash : ∀ d ∈ ['\\'], isSeparator d = false :=
        List.forall_mem_singleton.mpr (by decide)
      exact Text.pieces_append_cons _ hbackslash hsep
    | false =>
      have hcharacter : ∀ d ∈ [c], isSeparator d = false := by simpa using hsep
      have hfront : ∀ d ∈ if Segment.isSpecial c then ['\\', c] else [c],
          isSeparator d = false := by
        cases Segment.isSpecial c with
        | true => exact List.forall_mem_cons.mpr ⟨by decide, hcharacter⟩
        | false => exact hcharacter
      have hfirst : pieces isSeparator (c :: cs) = (c :: piece) :: rest :=
        pieces_append hcharacter hpieces
      rw [hfirst, Bool.or_false]
      cases rest with
      | nil => rw [pieces_append hfront ih, escapedPieces, escapeChars_cons]
      | cons next rest =>
        rw [pieces_append hfront ih, escapedPieces, escapeChars_cons, List.append_assoc]

/-! ## Alternatives -/

/-- An escaped text is read as its characters, before whatever follows. -/
theorem parse_escapeChars (cs : List Char) {rest : List Char} {segments : List Segment}
    (h : Segment.Reads rest segments) :
    Pattern.parse (String.ofList (escapeChars Segment.isSpecial cs ++ rest)) =
      Pattern.ofSegments (.literal (String.ofList cs) :: segments) := by
  rw [Pattern.parse, Pattern.ofSegments, Pattern.ofSegments, String.toList_ofList,
    ← (Segment.reads_escapeChars cs h).normalize_eq, Segment.normalize, List.foldr_append,
    Segment.foldr_prepend_chars]
  rfl

theorem parse_escapeChars_nil (cs : List Char) :
    Pattern.parse (String.ofList (escapeChars Segment.isSpecial cs)) =
      Pattern.literal (String.ofList cs) := by
  have h := parse_escapeChars cs .nil
  rwa [List.append_nil] at h

theorem parse_escapeChars_backslash (cs : List Char) :
    Pattern.parse (String.ofList (escapeChars Segment.isSpecial cs ++ ['\\'])) =
      Pattern.literal (String.ofList (cs ++ ['\\'])) := by
  rw [parse_escapeChars cs .dangling, Pattern.ofSegments, Segment.normalize_cons,
    Segment.normalize_cons, ← Segment.prepend_literal_append, String.ofList_append]
  rfl

/-- The alternatives of an escaped text are its remnants, each as a literal. -/
theorem parse_escapedPieces (parts : List (List Char)) :
    (((escapedPieces parts).map trimChars).filter fun part => !part.isEmpty).map
        (fun part => Pattern.parse (String.ofList part)) =
      (remnants parts).map fun part => Pattern.literal (String.ofList part) := by
  fun_induction remnants parts with
  | case1 => rfl
  | case2 last =>
    rw [escapedPieces, List.map_singleton, trimChars_escapeChars, List.filter_cons,
      isEmpty_escapeChars, List.filter_cons]
    split
    · exact congrArg ([·]) (parse_escapeChars_nil _)
    · rfl
  | case3 piece next rest ih =>
    rw [escapedPieces, List.map_cons, trimChars_escapeChars_concat, List.filter_cons_of_pos,
      List.map_cons, parse_escapeChars_backslash, ih, List.map_cons]
    simp

/-! ## Remnants -/

theorem exists_first_separator (h : ∃ c ∈ cs, isSeparator c = true) :
    ∃ before c after, cs = before ++ c :: after ∧ (∀ d ∈ before, isSeparator d = false) ∧
      isSeparator c = true := by
  obtain ⟨c, hc⟩ := Option.isSome_iff_exists.mp (List.find?_isSome.mpr h)
  obtain ⟨hsep, before, after, rfl, hbefore⟩ := List.find?_eq_some_iff_append.mp hc
  exact ⟨before, c, after, rfl, by simpa using hbefore, hsep⟩

theorem remnants_of_plain (h : ∀ c ∈ cs, isSeparator c = false) (hne : trimChars cs ≠ []) :
    remnants (pieces isSeparator cs) = [trimChars cs] := by
  rw [Text.pieces_of_all_not h, remnants, List.filter_cons_of_pos]
  · rfl
  · simpa using hne

theorem remnants_of_separator {before after : List Char}
    (h : ∀ d ∈ before, isSeparator d = false) (hc : isSeparator c = true) :
    remnants (pieces isSeparator (before ++ c :: after)) =
      (before.dropWhile isBlank ++ ['\\']) :: remnants (pieces isSeparator after) := by
  obtain ⟨next, rest, hrest⟩ := List.exists_cons_of_ne_nil (Text.pieces_ne_nil isSeparator after)
  rw [Text.pieces_append_cons _ h hc, hrest, remnants]

theorem remnants_ne_nil (hne : trimChars cs ≠ []) : remnants (pieces isSeparator cs) ≠ [] := by
  by_cases hsep : ∃ c ∈ cs, isSeparator c = true
  · obtain ⟨before, c, after, rfl, hbefore, hc⟩ := exists_first_separator hsep
    rw [remnants_of_separator hbefore hc]
    exact List.cons_ne_nil _ _
  · push Not at hsep
    rw [remnants_of_plain (by simpa using hsep) hne]
    exact List.cons_ne_nil _ _

theorem length_trimChars_le (cs : List Char) : (trimChars cs).length ≤ cs.length := by
  obtain ⟨tail, htail, -⟩ := Text.exists_append_dropBlanksRight (cs.dropWhile isBlank)
  have hlength := congrArg List.length htail
  rw [List.length_append] at hlength
  have hle := (List.dropWhile_suffix isBlank (l := cs)).length_le
  rw [trimChars]
  omega

theorem length_remnant_le {part : List Char} (h : part ∈ remnants (pieces isSeparator cs)) :
    part.length ≤ cs.length := by
  -- By induction on the length, for the text behind its first separator is shorter.
  induction hn : cs.length using Nat.strong_induction_on generalizing cs with
  | _ n ih =>
    subst hn
    by_cases hsep : ∃ c ∈ cs, isSeparator c = true
    · obtain ⟨before, c, after, rfl, hbefore, hc⟩ := exists_first_separator hsep
      rw [remnants_of_separator hbefore hc] at h
      have hle := (List.dropWhile_suffix isBlank (l := before)).length_le
      simp only [List.length_append, List.length_cons] at ih ⊢
      rcases List.mem_cons.mp h with rfl | hrest
      · simp only [List.length_append, List.length_singleton]
        omega
      · have := ih _ (by omega) hrest rfl
        omega
    · push Not at hsep
      rw [Text.pieces_of_all_not (by simpa using hsep), remnants] at h
      obtain rfl := List.mem_singleton.mp (List.mem_filter.mp h).1
      exact length_trimChars_le cs

/-- What is left of a text with a separator is shorter, or ends in a backslash instead. -/
theorem not_folded_remnant {part : List Char} (hsep : ∃ c ∈ cs, isSeparator c = true)
    (h : part ∈ remnants (pieces isSeparator cs)) :
    cs.map Text.foldCase ≠ part.map Text.foldCase := by
  obtain ⟨before, c, after, rfl, hbefore, hc⟩ := exists_first_separator hsep
  rw [remnants_of_separator hbefore hc] at h
  intro hfold
  have hlength := congrArg List.length hfold
  rw [List.length_map, List.length_map, List.length_append, List.length_cons] at hlength
  rcases List.mem_cons.mp h with rfl | hrest
  · -- Only a separator at the end leaves the length as it is, and a backslash in its place.
    have hle := (List.dropWhile_suffix isBlank (l := before)).length_le
    rw [List.length_append, List.length_singleton] at hlength
    obtain rfl : after = [] := List.eq_nil_of_length_eq_zero (by omega)
    rw [List.map_append, List.map_append] at hfold
    have hlast := (List.append_inj' hfold rfl).2
    simp only [isSeparator, Bool.or_eq_true, beq_iff_eq] at hc
    rcases hc with (rfl | rfl) | rfl <;> exact absurd hlast (by decide)
  · have := length_remnant_le hrest
    omega

/-! ## The query -/

theorem alternatives_of_ne_nil {value : String}
    (h : (((pieces isSeparator value.toList).map trimChars).filter
      fun part => !part.isEmpty) ≠ []) :
    alternatives value = (((pieces isSeparator value.toList).map trimChars).filter
      fun part => !part.isEmpty).map String.ofList := by
  rw [alternatives]
  split
  · next hnone => exact absurd hnone h
  · rfl

theorem patterns_escape {name : String} (hne : trimChars name.toList ≠ []) :
    patterns [escape name] =
      (remnants (pieces isSeparator name.toList)).map
        fun part => Pattern.literal (String.ofList part) := by
  have hpieces : pieces isSeparator (escape name).toList =
      escapedPieces (pieces isSeparator name.toList) := by
    rw [escape, String.toList_ofList, pieces_escapeChars]
  have hparts : (((pieces isSeparator (escape name).toList).map trimChars).filter
      fun part => !part.isEmpty) ≠ [] := by
    intro hnone
    have hmap := parse_escapedPieces (pieces isSeparator name.toList)
    rw [← hpieces, hnone] at hmap
    exact remnants_ne_nil hne (List.map_eq_nil_iff.mp hmap.symm)
  rw [patterns, List.flatMap_singleton, alternatives_of_ne_nil hparts, List.map_map, hpieces]
  exact parse_escapedPieces _

/-- An escaped text asks for its remnants. -/
theorem matched_escape_iff {name text : String} (hne : trimChars name.toList ≠ []) :
    Matched [escape name] text ↔
      ∃ part ∈ remnants (pieces isSeparator name.toList), SameFolded text (String.ofList part) := by
  rw [← exists_pattern_iff, patterns_escape hne]
  simp only [List.mem_map, exists_exists_and_eq_and, Pattern.matchesText_iff,
    Pattern.matches_literal_iff]
  rfl

/-- A query for an escaped name finds the channels that are named like one of its remnants. -/
theorem exists_compile_escape {name : String} (hne : trimChars name.toList ≠ []) :
    ∃ query, compile (.ofPairs [("~name", escape name)]) = .ok query ∧
      ∀ c : Channel, query.predicate.holds (toDocument c) = true ↔
        ∃ part ∈ remnants (pieces isSeparator name.toList),
          SameFolded c.name (String.ofList part) := by
  have hkey : Key.ofText "~name" = ⟨"~name", false⟩ := by decide
  have haccepts : Accepts ("~name", [escape name]) := by
    rw [Accepts, hkey]
    exact ⟨by decide, fun hnumber => absurd hnumber (by decide)⟩
  obtain ⟨query, hcompile, hholds⟩ := exists_compile_entry haccepts
  refine ⟨query, hcompile, fun c => ?_⟩
  rw [hholds, hkey, ← matched_escape_iff hne]
  rfl

/-- A name with a backslash before each character that means something in a value is asked for as
it is, up to case, exactly if none of these characters is a separator. Else it is asked for in
parts, and a channel of that name is not found. -/
theorem escaped_name_found {name : String} (hne : name ≠ "") (htrim : Text.trim name = name) :
    ∃ query, compile (.ofPairs [("~name", escape name)]) = .ok query ∧
      (∀ c : Channel, query.predicate.holds (toDocument c) = true ↔
        ∃ part ∈ remnants (pieces isSeparator name.toList),
          SameFolded c.name (String.ofList part)) ∧
      ((∀ c : Channel, query.predicate.holds (toDocument c) = true ↔ SameFolded c.name name) ↔
        ∀ ch ∈ name.toList, isSeparator ch = false) ∧
      ∀ c : Channel, SameFolded c.name name →
        (query.predicate.holds (toDocument c) = true ↔
          ∀ ch ∈ name.toList, isSeparator ch = false) := by
  have hchars : trimChars name.toList = name.toList := by
    simpa [Text.trim] using congrArg String.toList htrim
  have htrimmed : trimChars name.toList ≠ [] := by
    rw [hchars]
    simpa using hne
  obtain ⟨query, hcompile, hholds⟩ := exists_compile_escape htrimmed
  -- Without a separator, the name is its own only remnant.
  have hplain : (∀ ch ∈ name.toList, isSeparator ch = false) →
      ∀ c : Channel,
        query.predicate.holds (toDocument c) = true ↔ SameFolded c.name name := by
    intro hsep c
    rw [hholds, remnants_of_plain hsep htrimmed, hchars]
    simp
  have hlost : ∀ c : Channel, SameFolded c.name name →
      query.predicate.holds (toDocument c) = true →
        ∀ ch ∈ name.toList, isSeparator ch = false := by
    intro c hname hfound ch hch
    by_contra hsep
    obtain ⟨part, hpart, hfolded⟩ := (hholds c).mp hfound
    refine not_folded_remnant ⟨ch, hch, Bool.eq_true_of_not_eq_false hsep⟩ hpart ?_
    have := hname.symm.trans hfolded
    rwa [SameFolded, String.toList_ofList] at this
  refine ⟨query, hcompile, hholds, ⟨fun h => ?_, hplain⟩, fun c hname => ⟨hlost c hname, ?_⟩⟩
  · exact hlost ⟨name, "", [], []⟩ rfl ((h _).mpr rfl)
  · exact fun hsep => (hplain hsep c).mpr hname

/-- Of a name with a bar and a star, the bar is lost and the star is kept. -/
theorem barredStar_asked_in_parts :
    "a|*b" ≠ "" ∧ Text.trim "a|*b" = "a|*b" ∧ escape "a|*b" = "a\\|\\*b" ∧
      ∃ query, compile (.ofPairs [("~name", escape "a|*b")]) = .ok query ∧
        query.predicate.holds (toDocument (⟨"a|*b", "o", [], []⟩ : Channel)) = false ∧
        query.predicate.holds (toDocument (⟨"A\\", "o", [], []⟩ : Channel)) = true ∧
        query.predicate.holds (toDocument (⟨"*B", "o", [], []⟩ : Channel)) = true := by
  have hne : "a|*b" ≠ "" := by decide
  have htrim : Text.trim "a|*b" = "a|*b" := by decide
  have hparts : remnants (pieces isSeparator "a|*b".toList) = [['a', '\\'], ['*', 'b']] := by decide
  obtain ⟨query, hcompile, hholds, -, hfound⟩ := escaped_name_found hne htrim
  refine ⟨hne, htrim, by decide, query, hcompile, ?_, ?_, ?_⟩
  · rw [Bool.eq_false_iff, Ne, hfound ⟨"a|*b", "o", [], []⟩ rfl]
    exact fun h => absurd (h '|' (by decide)) (by decide)
  · refine (hholds _).mpr ⟨['a', '\\'], by rw [hparts]; decide, ?_⟩
    rw [SameFolded, String.toList_ofList]
    decide
  · refine (hholds _).mpr ⟨['*', 'b'], by rw [hparts]; decide, ?_⟩
    rw [SameFolded, String.toList_ofList]
    decide

/-- Escaping does not make every name expressible : the channel `a|b` is not found. -/
theorem bar_not_escaped :
    ¬∀ name : String, name ≠ "" → Text.trim name = name →
      ∀ query, compile (.ofPairs [("~name", escape name)]) = .ok query →
        ∀ c : Channel, query.predicate.holds (toDocument c) = true ↔ SameFolded c.name name := by
  intro h
  have hfound := (h "a|b" (by decide) (by decide) _ rfl ⟨"a|b", "o", [], []⟩).mpr rfl
  exact absurd hfound (by decide)

end Query

end ChannelDirectory
