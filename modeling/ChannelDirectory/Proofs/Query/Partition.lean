import Mathlib.Data.List.Pairwise
import ChannelDirectory.Proofs.Directory.Counting
import ChannelDirectory.Proofs.Query.Spelling

/-!
# A property, its negation and its absence

For a plain key, three queries sort the channels : the key asks for a matching value, the negated
key for a value that does not match, and the negated key with a star for no value at all. Each of
them asks for its own property of a channel, so they overlap on a channel with two properties of
that name, one with a matching value and one without (`Query.Mixed`).

Every channel is found by one of the queries at least, and by exactly one if it is not mixed
(`Query.found_once_iff`). Names of properties are compared without regard to case here, but not
where channels are written : a channel may have the properties `ready` and `Ready`, and be found
twice (`Query.readyTwice_found_twice`).
-/

namespace ChannelDirectory

namespace Query

/-- The signs of negation that a key can end in. -/
def signs : List String :=
  ["!", "!="]

/-- A row of stars, and no empty one. -/
def IsStars (alternative : String) : Prop :=
  alternative ≠ "" ∧ ∀ c ∈ alternative.toList, c = '*'

/-- No alternative of the values is a row of stars. -/
def Starless (values : List String) : Prop :=
  ∀ value ∈ values, ∀ alternative, IsAlternative value alternative → ¬IsStars alternative

/-- The channel has two properties of that name, one with a matching value and one without. -/
def Mixed (key : String) (values : List String) (c : Channel) : Prop :=
  (∃ property ∈ c.properties, SameFolded property.name key ∧ Matched values property.value) ∧
    ∃ property ∈ c.properties, SameFolded property.name key ∧ ¬Matched values property.value

/-- No two properties of the channel have names that differ only by the case of letters. -/
def DistinctFolded (c : Channel) : Prop :=
  c.properties.Pairwise fun property property' => ¬SameFolded property.name property'.name

/-- How many of the queries find the channel. -/
def timesFound (queries : List Query) (c : Channel) : Nat :=
  queries.countP fun query => query.predicate.holds (toDocument c)

variable {key sign : String} {values : List String} {c : Channel}

/-! ## The three keys -/

/-- Without rows of stars, no alternative matches every text. -/
theorem starless_iff : Starless values ↔ ¬MatchesAll values := by
  have hrow : ∀ alternative, IsStars alternative ↔ ∀ text, Agrees alternative text := by
    intro alternative
    rw [IsStars, Ne, ← String.toList_eq_nil_iff]
    exact Pattern.admits_all_iff.symm
  simp only [Starless, MatchesAll, hrow, not_exists, not_and]

/-- A trimmed key with a sign of negation is read as its negation. -/
theorem ofText_append_sign (htrim : Text.trim key = key) (hsign : sign ∈ signs) :
    Key.ofText (key ++ sign) = ⟨key, true⟩ := by
  have hchars : Text.trimChars key.toList = key.toList := by
    simpa [Text.trim] using congrArg String.toList htrim
  have hclear : Text.Clear key.toList := hchars ▸ Text.clear_trimChars key.toList
  have hright : Text.trimRight key = key := by
    rw [Text.trimRight, ← hchars, Text.trimChars, Text.dropBlanksRight_dropBlanksRight,
      ← Text.trimChars, hchars, String.ofList_toList]
  have hnegated : Text.trim (key ++ "!") = key ++ "!" := by
    rw [Text.trim, String.toList_append]
    change String.ofList (Text.trimChars (key.toList ++ ['!'])) = _
    rw [Text.trimChars, Text.dropWhile_of_clear (hclear.concat (by decide)),
      Text.dropBlanksRight_concat (by decide), String.ofList_append, String.ofList_toList]
  have hunequal : Text.trim (key ++ "!=") = key ++ "!=" := by
    rw [Text.trim, String.toList_append]
    change String.ofList (Text.trimChars (key.toList ++ (['!'] ++ ['=']))) = _
    rw [← List.append_assoc, Text.trimChars,
      Text.dropWhile_of_clear ((hclear.concat (by decide)).concat (by decide)),
      Text.dropBlanksRight_concat (by decide), List.append_assoc, String.ofList_append,
      String.ofList_toList]
    rfl
  rcases List.mem_cons.mp hsign with rfl | hsign
  · rw [ofText_of_negated hnegated, hright]
  · obtain rfl := List.mem_singleton.mp hsign
    rw [ofText_of_unequal hunequal, hright]

/-- One accepted entry compiles to what it asks for. -/
theorem exists_compile_entry {entry : String × List String} (accepted : Accepts entry) :
    ∃ query, compile ⟨[entry]⟩ = .ok query ∧
      ∀ c, query.predicate.holds (toDocument c) = true ↔ Asks (Key.ofText entry.1) entry.2 c := by
  have hdrafts : ∃ draft, [entry].foldlM Draft.addEntry {} = .ok draft :=
    exists_foldlM_addEntry_iff.mpr (List.forall_mem_singleton.mpr accepted)
  obtain ⟨draft, hdraft⟩ := hdrafts
  have hcompile : compile ⟨[entry]⟩ = .ok draft.finish := by
    rw [compile, hdraft]
    rfl
  refine ⟨_, hcompile, fun c => ?_⟩
  rw [holds_compile_iff hcompile, List.forall_mem_singleton, entryHolds_iff]

theorem accepts_of_isPlain {raw : String} {negated : Bool} (hkey : Key.ofText raw = ⟨key, negated⟩)
    (hne : key ≠ "") (hplain : IsPlain key) : Accepts (raw, values) := by
  rw [Accepts, hkey]
  refine ⟨hne, fun hnumber => absurd ?_ hplain.1⟩
  exact List.mem_cons_of_mem _ (List.mem_cons_of_mem _
    (List.mem_append_left ["~search_after", "~track_total_hits"] hnumber))

theorem asks_of_isPlain (hplain : IsPlain key) {negated : Bool} :
    Asks ⟨key, negated⟩ values c ↔
      if negated then
        (MatchesAll values → ¬∃ property ∈ c.properties, SameFolded property.name key) ∧
          (¬MatchesAll values → ∃ property ∈ c.properties,
            SameFolded property.name key ∧ ¬Matched values property.value)
      else ∃ property ∈ c.properties,
        SameFolded property.name key ∧ Matched values property.value := by
  obtain ⟨hreserved, -, -⟩ := hplain
  rw [reservedKeys, List.mem_cons, List.mem_cons, not_or, not_or] at hreserved
  rw [Asks, if_neg hreserved.1, if_neg hreserved.2.1, if_neg hreserved.2.2]

/-! ## Which of them find a channel -/

theorem SameFolded.symm {text text' : String} (h : SameFolded text text') :
    SameFolded text' text :=
  Eq.symm h

theorem SameFolded.trans {text text' text'' : String} (h : SameFolded text text')
    (h' : SameFolded text' text'') : SameFolded text text'' :=
  Eq.trans h h'

/-- With distinct names, there is one property for both values. -/
theorem DistinctFolded.not_mixed (distinct : DistinctFolded c) : ¬Mixed key values c := by
  rintro ⟨⟨property, hproperty, hname, hmatched⟩, property', hproperty', hname', hnot⟩
  have hne : property ≠ property' := by
    rintro rfl
    exact hnot hmatched
  have hsymm : Std.Symm fun property property' : PropertyRef =>
      ¬SameFolded property.name property'.name := ⟨fun _ _ h h' => h h'.symm⟩
  exact List.Pairwise.forall distinct hproperty hproperty' hne (hname.trans hname'.symm)

/-- What the three queries ask for leaves no channel out, and is shared by mixed channels only. -/
theorem timesFound_of_holds_iff {has other lacks : Query}
    (hhas : has.predicate.holds (toDocument c) = true ↔
      ∃ property ∈ c.properties, SameFolded property.name key ∧ Matched values property.value)
    (hother : other.predicate.holds (toDocument c) = true ↔
      ∃ property ∈ c.properties, SameFolded property.name key ∧ ¬Matched values property.value)
    (hlacks : lacks.predicate.holds (toDocument c) = true ↔
      ¬∃ property ∈ c.properties, SameFolded property.name key) :
    1 ≤ timesFound [has, other, lacks] c ∧
      (timesFound [has, other, lacks] c = 1 ↔ ¬Mixed key values c) := by
  have hsome : lacks.predicate.holds (toDocument c) = false ↔
      has.predicate.holds (toDocument c) = true ∨ other.predicate.holds (toDocument c) = true := by
    rw [← Bool.not_eq_true, hlacks, not_not, hhas, hother]
    constructor
    · rintro ⟨property, hproperty, hname⟩
      by_cases hmatched : Matched values property.value
      · exact .inl ⟨property, hproperty, hname, hmatched⟩
      · exact .inr ⟨property, hproperty, hname, hmatched⟩
    · rintro (⟨property, hproperty, hname, -⟩ | ⟨property, hproperty, hname, -⟩)
      · exact ⟨property, hproperty, hname⟩
      · exact ⟨property, hproperty, hname⟩
  rw [Mixed, ← hhas, ← hother]
  simp only [timesFound, List.countP_cons, List.countP_nil]
  cases hmatching : has.predicate.holds (toDocument c) <;>
    cases hunmatching : other.predicate.holds (toDocument c) <;>
    simp [hmatching, hunmatching] at hsome ⊢ <;> simp [hsome]

/-- The queries for a plain key, its negation and its absence compile. Each channel is found by one
of them at least, and by exactly one if it is not mixed. If no two of its properties have the same
name without regard to case, it is not mixed. -/
theorem found_once_iff (c : Channel) (key : String) (values : List String) (sign sign' : String)
    (htrim : Text.trim key = key) (hne : key ≠ "") (hplain : IsPlain key)
    (hsign : sign ∈ signs) (hsign' : sign' ∈ signs)
    (hstars : Starless values) :
    ∃ has other lacks, compile ⟨[(key, values)]⟩ = .ok has ∧
      compile ⟨[(key ++ sign, values)]⟩ = .ok other ∧
      compile ⟨[(key ++ sign', ["*"])]⟩ = .ok lacks ∧
      1 ≤ timesFound [has, other, lacks] c ∧
      (timesFound [has, other, lacks] c = 1 ↔ ¬Mixed key values c) ∧
      (DistinctFolded c → timesFound [has, other, lacks] c = 1) := by
  have hkey := ofText_of_isPlain htrim hplain
  have hnegated := ofText_append_sign htrim hsign
  have hnegated' := ofText_append_sign htrim hsign'
  have hvalues := starless_iff.mp hstars
  have haccepts : Accepts (key, values) := accepts_of_isPlain hkey hne hplain
  have haccepts' : Accepts (key ++ sign, values) := accepts_of_isPlain hnegated hne hplain
  have haccepts'' : Accepts (key ++ sign', ["*"]) := accepts_of_isPlain hnegated' hne hplain
  obtain ⟨has, hhas, hfoundHas⟩ := exists_compile_entry haccepts
  obtain ⟨other, hother, hfoundOther⟩ := exists_compile_entry haccepts'
  obtain ⟨lacks, hlacks, hfoundLacks⟩ := exists_compile_entry haccepts''
  simp only [hkey, hnegated, hnegated', asks_of_isPlain hplain, Bool.false_eq_true, ↓reduceIte,
    hvalues, matchesAll_star, false_implies, not_false_eq_true, not_true_eq_false, true_implies,
    true_and, and_true] at hfoundHas hfoundOther hfoundLacks
  have htimes := timesFound_of_holds_iff (hfoundHas c) (hfoundOther c) (hfoundLacks c)
  refine ⟨has, other, lacks, hhas, hother, hlacks, htimes.1, htimes.2, fun distinct => ?_⟩
  exact htimes.2.mpr distinct.not_mixed

/-- A channel with the properties `cell` and `Cells`, for which three values are asked. -/
theorem cellsOnA_found_once :
    ∃ has other lacks, compile ⟨[("cell", ["1?|2", "x"])]⟩ = .ok has ∧
      compile ⟨[("cell!=", ["1?|2", "x"])]⟩ = .ok other ∧
      compile ⟨[("cell!", ["*"])]⟩ = .ok lacks ∧
      timesFound [has, other, lacks] ⟨"A", "o", [], [⟨"Cell", "o", "14"⟩, ⟨"Cells", "o", "3"⟩]⟩ =
        1 := by
  obtain ⟨has, other, lacks, hhas, hother, hlacks, -, -, honce⟩ := found_once_iff
    ⟨"A", "o", [], [⟨"Cell", "o", "14"⟩, ⟨"Cells", "o", "3"⟩]⟩ "cell" ["1?|2", "x"] "!=" "!"
    (by decide) (by decide) (by decide) (by decide) (by decide)
    (starless_iff.mpr (mt any_matchesEverything_iff.mpr (by decide)))
  refine ⟨has, other, lacks, hhas, hother, hlacks, honce ?_⟩
  rw [DistinctFolded, List.pairwise_pair]
  unfold SameFolded
  decide

/-- Two properties whose names differ by the case of a letter. -/
def readyTwice : Channel :=
  ⟨"A", "o", [], [⟨"ready", "o", "1"⟩, ⟨"Ready", "o", "2"⟩]⟩

/-- The names are distinct and the key is plain, but the channel is found with the value and without
it. -/
theorem readyTwice_found_twice :
    (readyTwice.properties.map PropertyRef.name).Nodup ∧ Text.trim "ready" = "ready" ∧
      IsPlain "ready" ∧ Starless ["1"] ∧
      ∃ has other lacks, compile ⟨[("ready", ["1"])]⟩ = .ok has ∧
        compile ⟨[("ready!", ["1"])]⟩ = .ok other ∧
        compile ⟨[("ready!", ["*"])]⟩ = .ok lacks ∧
        has.predicate.holds (toDocument readyTwice) = true ∧
        other.predicate.holds (toDocument readyTwice) = true ∧
        timesFound [has, other, lacks] readyTwice = 2 := by
  have hstars : Starless ["1"] := starless_iff.mpr (mt any_matchesEverything_iff.mpr (by decide))
  refine ⟨by decide, by decide, by decide, hstars, _, _, _, rfl, rfl, rfl, ?_, ?_, ?_⟩ <;> decide

end Query

end ChannelDirectory
