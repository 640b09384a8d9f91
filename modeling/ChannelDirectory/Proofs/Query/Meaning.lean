import ChannelDirectory.Proofs.Pattern.Meaning
import ChannelDirectory.Proofs.Query.Evaluation
import ChannelDirectory.Query.Compile

/-!
# What query parameters mean

The query language without its compiler. An entry of the parameters is a raw key with
values. `Query.Spells` reads the key, `Query.IsAlternative` cuts a value into alternatives,
and `Query.Asks` says what a key with values asks of a channel; patterns match without
regard to case (`Pattern.Admits`).

`Query.holds_compile_iff` : the predicate that `Query.compile` builds holds of the document
of a channel exactly if every entry asks for what the channel has. The proof has one lemma
for each kind of condition, one for an entry (`Query.holds_addEntry_iff`) and an induction
over the entries.
-/

namespace ChannelDirectory

/-- The pieces of a text are its parts between separators. -/
theorem Text.pieces_eq_splitOnP (sep : Char → Bool) (cs : List Char) :
    Text.pieces sep cs = cs.splitOnP sep := by
  induction cs with
  | nil => rfl
  | cons c cs ih =>
    rw [List.splitOnP_cons_eq_if_modifyHead, ← ih, Text.pieces]
    by_cases h : sep c
    · rw [if_pos h, if_pos h]
    · rw [if_neg h, if_neg h]
      cases hpieces : Text.pieces sep cs with
      | nil => exact absurd hpieces (Text.pieces_ne_nil sep cs)
      | cons piece rest => rfl

namespace Query

/-! ## The language -/

/-- The key that a raw key spells. `!=` or `!` at its end is a negation. -/
inductive Spells : String → Key → Prop where
  | unequal {raw name : String} :
      Text.trim raw = name ++ "!=" → Spells raw ⟨Text.trimRight name, true⟩
  | negated {raw name : String} :
      Text.trim raw = name ++ "!" → Spells raw ⟨Text.trimRight name, true⟩
  | plain {raw : String} :
      (∀ name, Text.trim raw ≠ name ++ "!=") → (∀ name, Text.trim raw ≠ name ++ "!") →
        Spells raw ⟨Text.trim raw, false⟩

/-- A part of a value between `|`, `,` and `;`, trimmed. -/
def IsPiece (value piece : String) : Prop :=
  ∃ part ∈ value.toList.splitOnP (· ∈ ['|', ',', ';']), piece = Text.trim (String.ofList part)

/-- An alternative of a value : a piece that is not blank or, if all are, the empty text. -/
def IsAlternative (value alternative : String) : Prop :=
  (IsPiece value alternative ∧ alternative ≠ "") ∨
    ((∀ piece, IsPiece value piece → piece = "") ∧ alternative = "")

/-- The alternative, read as a pattern, matches the whole text without regard to case. -/
def Agrees (alternative text : String) : Prop :=
  Pattern.Admits .insensitive alternative.toList text.toList

/-- Some alternative of the values matches the text. -/
def Matched (values : List String) (text : String) : Prop :=
  ∃ value ∈ values, ∃ alternative, IsAlternative value alternative ∧ Agrees alternative text

/-- Some alternative of the values matches every text; it is then a row of stars
(`Pattern.admits_all_iff`). -/
def MatchesAll (values : List String) : Prop :=
  ∃ value ∈ values, ∃ alternative,
    IsAlternative value alternative ∧ ∀ text, Agrees alternative text

/-- The texts have the same simple case folding. -/
def SameFolded (text text' : String) : Prop :=
  text.toList.map Text.foldCase = text'.toList.map Text.foldCase

/-- A condition, or its opposite under a negated key. -/
def Signed (negated : Bool) (condition : Prop) : Prop :=
  if negated then ¬condition else condition

/-- The keys that direct the paging. -/
def pagingKeys : List String :=
  ["~size", "~from", "~search_after", "~track_total_hits"]

/-- What a key with values asks of a channel. -/
def Asks (key : Key) (values : List String) (c : Channel) : Prop :=
  if key.name = "~name" then Signed key.negated (Matched values c.name)
  else if key.name = "~tag" then Signed key.negated (∃ tag ∈ c.tags, Matched values tag.name)
  else if key.name ∈ pagingKeys then True
  else if key.negated then
    (MatchesAll values → ¬∃ property ∈ c.properties, SameFolded property.name key.name) ∧
      (¬MatchesAll values → ∃ property ∈ c.properties,
        SameFolded property.name key.name ∧ ¬Matched values property.value)
  else ∃ property ∈ c.properties,
    SameFolded property.name key.name ∧ Matched values property.value

/-- An entry of the parameters holds of a channel. -/
def EntryHolds (entry : String × List String) (c : Channel) : Prop :=
  ∃ key, Spells entry.1 key ∧ Asks key entry.2 c

/-! ## Keys -/

theorem ofText_of_unequal {raw name : String} (h : Text.trim raw = name ++ "!=") :
    Key.ofText raw = ⟨Text.trimRight name, true⟩ := by
  have hchars : Text.trimChars raw.toList = name.toList ++ ['!', '='] := by
    simpa [Text.trim] using congrArg String.toList h
  simp [Key.ofText, hchars, Text.trimRight]

theorem ofText_of_negated {raw name : String} (h : Text.trim raw = name ++ "!") :
    Key.ofText raw = ⟨Text.trimRight name, true⟩ := by
  have hchars : Text.trimChars raw.toList = name.toList ++ ['!'] := by
    simpa [Text.trim] using congrArg String.toList h
  simp [Key.ofText, hchars, Text.trimRight]

/-- Every raw key spells the key that is read from it. -/
theorem spells_ofText (raw : String) : Spells raw (Key.ofText raw) := by
  have htrim : (Text.trim raw).toList.reverse = (Text.trimChars raw.toList).reverse := by
    rw [Text.trim, String.toList_ofList]
  by_cases hunequal : ∃ name, Text.trim raw = name ++ "!="
  · obtain ⟨name, hname⟩ := hunequal
    rw [ofText_of_unequal hname]
    exact .unequal hname
  by_cases hnegated : ∃ name, Text.trim raw = name ++ "!"
  · obtain ⟨name, hname⟩ := hnegated
    rw [ofText_of_negated hname]
    exact .negated hname
  have hplain : Key.ofText raw = ⟨Text.trim raw, false⟩ := by
    rw [Key.ofText]
    split
    · next name hreverse =>
      refine absurd ⟨String.ofList name.reverse, ?_⟩ hunequal
      rw [← String.toList_inj, ← List.reverse_inj, htrim, hreverse]
      simp
    · next name hreverse =>
      refine absurd ⟨String.ofList name.reverse, ?_⟩ hnegated
      rw [← String.toList_inj, ← List.reverse_inj, htrim, hreverse]
      simp
    · rfl
  rw [hplain]
  exact .plain (not_exists.mp hunequal) (not_exists.mp hnegated)

theorem spells_iff {raw : String} {key : Key} : Spells raw key ↔ key = Key.ofText raw := by
  constructor
  · intro h
    cases h with
    | unequal hname => exact (ofText_of_unequal hname).symm
    | negated hname => exact (ofText_of_negated hname).symm
    | plain hunequal hnegated =>
      have h := spells_ofText raw
      generalize Key.ofText raw = key at h
      cases h with
      | unequal hname => exact absurd hname (hunequal _)
      | negated hname => exact absurd hname (hnegated _)
      | plain => rfl
  · rintro rfl
    exact spells_ofText raw

theorem entryHolds_iff {entry : String × List String} {c : Channel} :
    EntryHolds entry c ↔ Asks (Key.ofText entry.1) entry.2 c := by
  simp only [EntryHolds, spells_iff, exists_eq_left]

/-! ## Alternatives -/

theorem isPiece_iff {value piece : String} :
    IsPiece value piece ↔
      piece.toList ∈ (Text.pieces isSeparator value.toList).map Text.trimChars := by
  have hsep : (fun c => decide (c ∈ ['|', ',', ';'])) = isSeparator := by
    funext c
    rw [Bool.eq_iff_iff]
    simp [isSeparator, or_assoc]
  rw [IsPiece, hsep, ← Text.pieces_eq_splitOnP, List.mem_map]
  refine exists_congr fun part => and_congr_right fun _ => ?_
  rw [Text.trim, String.toList_ofList, ← String.toList_inj, String.toList_ofList, eq_comm]

theorem mem_alternatives_iff {value alternative : String} :
    alternative ∈ alternatives value ↔ IsAlternative value alternative := by
  rw [alternatives, IsAlternative]
  simp only [isPiece_iff]
  generalize (Text.pieces isSeparator value.toList).map Text.trimChars = parts
  have hmem : ∀ part : List Char, part ∈ parts.filter (fun part => !part.isEmpty) ↔
      part ∈ parts ∧ part ≠ [] := by simp
  split
  · next hnone =>
    have hblank : ∀ part ∈ parts, part = [] := by
      intro part hpart
      by_contra hne
      have := (hmem part).mpr ⟨hpart, hne⟩
      rw [hnone] at this
      cases this
    constructor
    · intro h
      exact .inr ⟨fun piece hpiece => by simpa using hblank _ hpiece, List.mem_singleton.mp h⟩
    · rintro (⟨hpiece, hne⟩ | ⟨-, rfl⟩)
      · exact absurd (by simpa using hblank _ hpiece) hne
      · exact List.mem_singleton_self ""
  · next hne =>
    constructor
    · intro h
      obtain ⟨part, hpart, rfl⟩ := List.mem_map.mp h
      obtain ⟨hpart, hnil⟩ := (hmem part).mp hpart
      exact .inl ⟨by rwa [String.toList_ofList], by simpa using hnil⟩
    · rintro (⟨hpiece, hne'⟩ | ⟨hall, -⟩)
      · exact List.mem_map.mpr ⟨alternative.toList,
          (hmem _).mpr ⟨hpiece, by simpa using hne'⟩, String.ofList_toList⟩
      · refine absurd (List.eq_nil_iff_forall_not_mem.mpr fun part hpart => ?_) hne
        obtain ⟨hpart, hnil⟩ := (hmem part).mp hpart
        have := hall (String.ofList part) (by rwa [String.toList_ofList])
        exact hnil (by simpa using this)

/-- The patterns are those of the alternatives. -/
theorem mem_patterns_iff {values : List String} {p : Pattern} :
    p ∈ patterns values ↔
      ∃ value ∈ values, ∃ alternative, IsAlternative value alternative ∧
        Pattern.parse alternative = p := by
  simp only [patterns, List.mem_map, List.mem_flatMap, mem_alternatives_iff]
  constructor
  · rintro ⟨alternative, ⟨value, hvalue, halternative⟩, rfl⟩
    exact ⟨value, hvalue, alternative, halternative, rfl⟩
  · rintro ⟨value, hvalue, alternative, halternative, rfl⟩
    exact ⟨alternative, ⟨value, hvalue, halternative⟩, rfl⟩

theorem exists_pattern_iff {values : List String} {text : String} :
    (∃ p ∈ patterns values, p.matchesText .insensitive text = true) ↔ Matched values text := by
  simp only [mem_patterns_iff, Pattern.matchesText_iff]
  constructor
  · rintro ⟨_, ⟨value, hvalue, alternative, halternative, rfl⟩, hmatches⟩
    exact ⟨value, hvalue, alternative, halternative, Pattern.matches_parse_iff.mp hmatches⟩
  · rintro ⟨value, hvalue, alternative, halternative, hagrees⟩
    exact ⟨_, ⟨value, hvalue, alternative, halternative, rfl⟩,
      Pattern.matches_parse_iff.mpr hagrees⟩

theorem any_matchesEverything_iff {values : List String} :
    (patterns values).any Pattern.matchesEverything = true ↔ MatchesAll values := by
  simp only [List.any_eq_true, mem_patterns_iff]
  constructor
  · rintro ⟨_, ⟨value, hvalue, alternative, halternative, rfl⟩, hall⟩
    exact ⟨value, hvalue, alternative, halternative, Pattern.matchesEverything_parse_iff.mp hall⟩
  · rintro ⟨value, hvalue, alternative, halternative, hall⟩
    exact ⟨_, ⟨value, hvalue, alternative, halternative, rfl⟩,
      Pattern.matchesEverything_parse_iff.mpr hall⟩

/-! ## Conditions -/

variable {c : Channel} {values : List String} {name : String}

/-- A test with the patterns of the values, on a field with one value. -/
theorem exists_wildcard_iff {field : Field} {scope : Scope} {text : String}
    (h : field.values scope = [text]) :
    (∃ p ∈ patterns values, (wildcard field p).holdsIn scope = true) ↔ Matched values text := by
  rw [← exists_pattern_iff]
  simp [wildcard, Predicate.holdsIn_wildcard_iff, h]

theorem holdsIn_propertyNamed_iff {property : PropertyRef} :
    (propertyNamed name).holdsIn (Predicate.onProperty property) = true ↔
      SameFolded property.name name := by
  rw [propertyNamed, wildcard, Predicate.holdsIn_wildcard_iff, Field.values_propertyName]
  simp only [List.mem_singleton, exists_eq_left, Pattern.matchesText_iff,
    Pattern.matches_literal_iff]
  rfl

theorem holds_nameGroup_iff :
    (nameGroup values).holds (toDocument c) = true ↔ Matched values c.name := by
  rw [nameGroup, Predicate.holds, Predicate.holdsIn_disjunction_map_iff,
    exists_wildcard_iff (Field.values_name c)]

theorem holds_tagGroup_iff :
    (tagGroup values).holds (toDocument c) = true ↔ ∃ tag ∈ c.tags, Matched values tag.name := by
  rw [tagGroup, Predicate.holds_disjunction_map_iff]
  simp only [← exists_wildcard_iff (Field.values_tagName _), Predicate.holds_tags_iff]
  constructor
  · rintro ⟨p, hp, tag, htag, h⟩
    exact ⟨tag, htag, p, hp, h⟩
  · rintro ⟨tag, htag, p, hp, h⟩
    exact ⟨p, hp, tag, htag, h⟩

/-- The name and the value are tested on one property. -/
theorem holds_propertyGroup_iff :
    (propertyGroup name values).holds (toDocument c) = true ↔
      ∃ property ∈ c.properties,
        SameFolded property.name name ∧ Matched values property.value := by
  rw [propertyGroup, Predicate.holds_disjunction_map_iff]
  simp only [← exists_wildcard_iff (Field.values_propertyValue _), Predicate.holds_properties_iff,
    Predicate.holdsIn_conjunction_iff, List.forall_mem_cons, List.not_mem_nil, false_implies,
    implies_true, and_true, holdsIn_propertyNamed_iff]
  constructor
  · rintro ⟨p, hp, property, hproperty, hname, h⟩
    exact ⟨property, hproperty, hname, p, hp, h⟩
  · rintro ⟨property, hproperty, hname, p, hp, h⟩
    exact ⟨p, hp, property, hproperty, hname, h⟩

theorem holds_absenceGroup_iff :
    (absenceGroup name values).holds (toDocument c) = true ↔
      (MatchesAll values → ¬∃ property ∈ c.properties, SameFolded property.name name) ∧
        (¬MatchesAll values → ∃ property ∈ c.properties,
          SameFolded property.name name ∧ ¬Matched values property.value) := by
  rw [absenceGroup]
  by_cases hall : MatchesAll values
  · rw [if_pos (any_matchesEverything_iff.mpr hall), Predicate.holds, Predicate.holdsIn_negate,
      Bool.not_eq_true', ← Bool.not_eq_true, ← Predicate.holds, Predicate.holds_properties_iff]
    simp [hall, holdsIn_propertyNamed_iff]
  · rw [if_neg (mt any_matchesEverything_iff.mp hall), Predicate.holds_properties_iff]
    simp only [hall, false_implies, not_false_eq_true, true_implies, true_and]
    refine exists_congr fun property => and_congr_right fun _ => ?_
    simp only [Predicate.holdsIn_conjunction_iff, List.forall_mem_cons, List.not_mem_nil,
      false_implies, implies_true, and_true, holdsIn_propertyNamed_iff, Predicate.holdsIn_negate,
      Bool.not_eq_true', ← Bool.not_eq_true, Predicate.holdsIn_disjunction_map_iff,
      exists_wildcard_iff (Field.values_propertyValue property)]

theorem holds_negateIf_iff {negated : Bool} {p : Predicate} :
    (negateIf negated p).holds (toDocument c) = true ↔
      Signed negated (p.holds (toDocument c) = true) := by
  cases negated with
  | false => rfl
  | true =>
    rw [negateIf, if_pos rfl, Predicate.holds, Predicate.holdsIn_negate]
    simp [Signed, Predicate.holds]

/-! ## Entries -/

/-- All conditions of the draft hold of the channel. -/
def Draft.Holds (draft : Draft) (c : Channel) : Prop :=
  ∀ condition ∈ draft.conditions, condition.holds (toDocument c) = true

theorem holds_require_iff {draft : Draft} {p : Predicate} :
    (draft.require p).Holds c ↔ draft.Holds c ∧ p.holds (toDocument c) = true := by
  simp [Draft.Holds, Draft.require, or_imp, forall_and]

/-- The keys for the paging add no condition. -/
theorem conditions_of_paging {draft draft' : Draft} {entry : String × List String}
    (hkey : (Key.ofText entry.1).name ∈ pagingKeys) (h : draft.addEntry entry = .ok draft') :
    draft'.conditions = draft.conditions := by
  dsimp only [Draft.addEntry] at h
  generalize Key.ofText entry.1 = key at h hkey
  simp only [pagingKeys, List.mem_cons, List.not_mem_nil, or_false] at hkey
  rcases hkey with hsize | hfrom | hafter | htotal
  · simp only [hsize, String.reduceEq, ↓reduceIte] at h
    cases hgreatest : greatest "~size" none entry.2 <;> rw [hgreatest] at h <;> cases h
    rfl
  · simp only [hfrom, String.reduceEq, ↓reduceIte] at h
    cases hgreatest : greatest "~from" none entry.2 <;> rw [hgreatest] at h <;> cases h
    rfl
  · simp only [hafter, String.reduceEq, ↓reduceIte] at h
    split at h <;> cases h <;> rfl
  · simp only [htotal, String.reduceEq, ↓reduceIte] at h
    split at h <;> cases h <;> rfl

/-- An entry adds what it asks for to the conditions. -/
theorem holds_addEntry_iff {draft draft' : Draft} {entry : String × List String}
    (h : draft.addEntry entry = .ok draft') :
    draft'.Holds c ↔ draft.Holds c ∧ EntryHolds entry c := by
  rw [entryHolds_iff, Asks]
  by_cases hpaging : (Key.ofText entry.1).name ∈ pagingKeys
  · have hconditions := conditions_of_paging hpaging h
    rw [if_neg fun hname => absurd hpaging (by rw [hname]; decide),
      if_neg fun hname => absurd hpaging (by rw [hname]; decide), if_pos hpaging, and_true,
      Draft.Holds, hconditions, Draft.Holds]
  · rw [if_neg hpaging]
    dsimp only [Draft.addEntry] at h
    generalize Key.ofText entry.1 = key at h hpaging ⊢
    simp only [pagingKeys, List.mem_cons, List.not_mem_nil, or_false, not_or] at hpaging
    obtain ⟨hsize, hfrom, hafter, htotal⟩ := hpaging
    simp only [if_neg hsize, if_neg hfrom, if_neg hafter, if_neg htotal] at h
    split_ifs at h ⊢ <;> cases h <;> rw [holds_require_iff]
    · rw [holds_negateIf_iff, holds_nameGroup_iff]
    · rw [holds_negateIf_iff, holds_tagGroup_iff]
    · rw [holds_absenceGroup_iff]
    · rw [holds_propertyGroup_iff]

/-- Entries add what each of them asks for. -/
theorem holds_foldlM_addEntry_iff {entries : List (String × List String)} {draft draft' : Draft}
    (h : entries.foldlM Draft.addEntry draft = .ok draft') :
    draft'.Holds c ↔ draft.Holds c ∧ ∀ entry ∈ entries, EntryHolds entry c := by
  induction entries generalizing draft with
  | nil =>
    obtain rfl := Except.ok.inj h
    simp
  | cons entry entries ih =>
    rw [List.foldlM_cons] at h
    cases hentry : draft.addEntry entry with
    | error e => rw [hentry] at h; cases h
    | ok next =>
      rw [hentry] at h
      rw [ih h, holds_addEntry_iff hentry, List.forall_mem_cons, and_assoc]

/-- The predicate of a compiled query holds of a channel exactly if every entry of the
parameters does. Whether a backend can match it, however long its patterns are, is a question of
its own (`Store.matching`). -/
theorem holds_compile_iff {params : QueryParams} {query : Query}
    (h : compile params = .ok query) (c : Channel) :
    query.predicate.holds (toDocument c) = true ↔ ∀ entry ∈ params.entries, EntryHolds entry c := by
  rw [compile] at h
  cases hdraft : params.entries.foldlM Draft.addEntry {} with
  | error e => rw [hdraft] at h; cases h
  | ok draft =>
    rw [hdraft] at h
    obtain rfl := Except.ok.inj h
    have hempty : ({} : Draft).Holds c := by simp [Draft.Holds]
    rw [Draft.finish, Predicate.holds, Predicate.holdsIn_conjunction_iff]
    exact (holds_foldlM_addEntry_iff hdraft).trans (and_iff_right hempty)

/-- Parameters with a negated tag, a property with two alternatives, and a page size. -/
def ringParams : QueryParams :=
  ⟨[("~tag !=", ["old*"]), ("Cell", ["0?; 1?"]), ("~size", ["5"]), ("domain!", ["x", "y,z"])]⟩

/-- A channel that the parameters ask for. -/
def ringChannel : Channel :=
  ⟨"SR:C01", "ops", [⟨"current", "ops"⟩],
    [⟨"cell", "ops", "12"⟩, ⟨"domain", "ops", "storage ring"⟩]⟩

theorem holds_compile_ringParams :
    ∃ query, compile ringParams = .ok query ∧
      query.predicate.holds (toDocument ringChannel) = true ∧
      ∀ entry ∈ ringParams.entries, EntryHolds entry ringChannel := by
  refine ⟨_, rfl, ?_, (holds_compile_iff rfl ringChannel).mp ?_⟩ <;> decide

end Query

end ChannelDirectory
