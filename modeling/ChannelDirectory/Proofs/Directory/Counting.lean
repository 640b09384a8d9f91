import ChannelDirectory.Proofs.Directory.Reading
import ChannelDirectory.Proofs.Query.Meaning

/-!
# Counting the channels of a property

The channels that carry a property are counted with the predicate that also finds its members,
so this count is the number of members. Counting by property instead reads the name as the key of a
query that asks for any value. What such a key asks for is `Query.AsksAny`, and `Query.refusal?`
says which keys are refused.

A name with a sign of negation at its end counts the channels that lack another property, and a
reserved key counts something else or is refused. For all other names both counts differ only by
the case of letters : they agree exactly if no stored channel carries the name with other letters
only (`countByProperty_eq_carriers_iff`).
-/

namespace ChannelDirectory

open Attribute Collection Program

namespace Query

/-- The keys that do not stand for a property. -/
def reservedKeys : List String :=
  "~name" :: "~tag" :: pagingKeys

/-- The name stands for itself as a key : it is not reserved, and has no sign of negation at its
end. -/
def IsPlain (name : String) : Prop :=
  name ∉ reservedKeys ∧ ¬['!'] <:+ name.toList ∧ ¬['!', '='] <:+ name.toList

instance (name : String) : Decidable (IsPlain name) :=
  inferInstanceAs (Decidable (_ ∧ _ ∧ _))

/-- What a key asks of a channel if any value will do. -/
def AsksAny (key : Key) (c : Channel) : Prop :=
  if key.name = "~name" then Signed key.negated True
  else if key.name = "~tag" then Signed key.negated (c.tags ≠ [])
  else if key.name ∈ pagingKeys then True
  else Signed key.negated (∃ property ∈ c.properties, SameFolded property.name key.name)

/-- Why a key is refused if any value will do. -/
def refusal? (key : Key) : Option QueryError :=
  if key.name = "" then some .emptyKey
  else if key.name ∈ ["~size", "~from"] then some (.invalidNumber key.name "*")
  else none

variable {key : Key} {name : String} {c : Channel}

/-! ## Any value -/

theorem isAlternative_star : IsAlternative "*" "*" :=
  mem_alternatives_iff.mp (by decide)

theorem agrees_star (text : String) : Agrees "*" text :=
  Pattern.admits_all_iff.mpr (by simp) text

theorem matched_star (text : String) : Matched ["*"] text :=
  ⟨"*", List.mem_singleton_self _, "*", isAlternative_star, agrees_star text⟩

theorem matchesAll_star : MatchesAll ["*"] :=
  ⟨"*", List.mem_singleton_self _, "*", isAlternative_star, agrees_star⟩

/-- A key with a star asks that anything of it be there. -/
theorem asks_star_iff : Asks key ["*"] c ↔ AsksAny key c := by
  have htags : (∃ tag ∈ c.tags, Matched ["*"] tag.name) ↔ c.tags ≠ [] := by
    cases c.tags <;> simp [matched_star]
  rw [Asks, AsksAny, htags]
  simp only [matched_star, matchesAll_star, and_true, true_implies, not_true_eq_false,
    false_implies, Signed]

/-- A name with a star is refused exactly if its key is. -/
theorem addEntry_star (name : String) :
    match refusal? (Key.ofText name) with
    | some e => Draft.addEntry {} (name, ["*"]) = .error e
    | none => ∃ draft, Draft.addEntry {} (name, ["*"]) = .ok draft := by
  have hgreatest : ∀ key, greatest key none ["*"] = .error (.invalidNumber key "*") := fun _ => rfl
  dsimp only [Draft.addEntry]
  generalize Key.ofText name = key
  rw [refusal?]
  by_cases hempty : key.name = ""
  · simp [hempty]
  by_cases hsize : key.name = "~size"
  · simp only [hsize, hgreatest, String.reduceEq, ↓reduceIte, List.mem_cons, true_or]
    rfl
  by_cases hfrom : key.name = "~from"
  · simp only [hfrom, hgreatest, String.reduceEq, ↓reduceIte, List.mem_cons, true_or, or_true]
    rfl
  simp only [hempty, hsize, hfrom, ↓reduceIte, List.mem_cons, List.not_mem_nil, or_self]
  split_ifs <;> exact ⟨_, rfl⟩

/-- A key with any value compiles to what it asks for, or it is refused. -/
theorem compile_star (name : String) :
    match refusal? (Key.ofText name) with
    | some e => compile ⟨[(name, ["*"])]⟩ = .error e
    | none => ∃ query, compile ⟨[(name, ["*"])]⟩ = .ok query ∧
        ∀ c, query.predicate.holds (toDocument c) = true ↔ AsksAny (Key.ofText name) c := by
  have hentry := addEntry_star name
  cases hrefusal : refusal? (Key.ofText name) with
  | some e =>
    rw [hrefusal] at hentry
    simp only [compile, List.foldlM_cons, hentry]
    rfl
  | none =>
    rw [hrefusal] at hentry
    obtain ⟨draft, hdraft⟩ := hentry
    have hcompile : compile ⟨[(name, ["*"])]⟩ = .ok draft.finish := by
      simp only [compile, List.foldlM_cons, hdraft]
      rfl
    refine ⟨_, hcompile, fun c => ?_⟩
    rw [holds_compile_iff hcompile, List.forall_mem_singleton, entryHolds_iff, asks_star_iff]

/-- A plain name that is not blank at its ends is a key that stands for itself. -/
theorem ofText_of_isPlain (htrim : Text.trim name = name) (h : IsPlain name) :
    Key.ofText name = ⟨name, false⟩ := by
  obtain ⟨-, hnegated, hunequal⟩ := h
  have hspells : Spells name ⟨Text.trim name, false⟩ := by
    refine .plain ?_ ?_
    · intro stem hstem
      exact hunequal ⟨stem.toList, by rw [← htrim, hstem]; simp⟩
    · intro stem hstem
      exact hnegated ⟨stem.toList, by rw [← htrim, hstem]; simp⟩
  rw [← spells_iff.mp hspells, htrim]

/-- A plain name is no key that is refused. -/
theorem refusal?_of_isPlain (hne : name ≠ "") (h : IsPlain name) :
    refusal? ⟨name, false⟩ = none := by
  have hpaging : name ∉ ["~size", "~from"] := by
    intro hmem
    refine h.1 (List.mem_cons_of_mem _ (List.mem_cons_of_mem _ ?_))
    exact List.mem_append_left ["~search_after", "~track_total_hits"] hmem
  rw [refusal?, if_neg hne, if_neg hpaging]

/-- A plain key with a star asks for a property of that name, up to case. -/
theorem asksAny_plain_iff (h : IsPlain name) :
    AsksAny ⟨name, false⟩ c ↔ ∃ property ∈ c.properties, SameFolded property.name name := by
  obtain ⟨hreserved, -, -⟩ := h
  rw [reservedKeys, List.mem_cons, List.mem_cons, not_or, not_or] at hreserved
  rw [AsksAny, if_neg hreserved.1, if_neg hreserved.2.1, if_neg hreserved.2.2, Signed]
  exact Iff.rfl

end Query

/-- A valid name is trimmed, and not empty. -/
theorem trim_of_validateName {kind : RecordKind} {name : String}
    (h : validateName kind name = .ok ()) : Text.trim name = name ∧ name ≠ "" := by
  unfold validateName at h
  split_ifs at h with hblank _ _ htrim
  refine ⟨(not_not.mp htrim).symm, ?_⟩
  rintro rfl
  exact hblank rfl

namespace Directory

variable {dir : Directory} {b : Backend} {name : String} {asked carriers : List Channel}

/-- Counting by property counts what the name asks for as a key. -/
theorem run_countByProperty (havail : b.available = true)
    (wf : dir.channels.HoldsOnly Channel.Distinct b.store)
    (hasked : dir.Selects b.store (Query.AsksAny (Query.Key.ofText name)) asked) :
    (dir.countByProperty name none).run b =
      (match Query.refusal? (Query.Key.ofText name) with
        | some e => .failed (.query e)
        | none => .ok asked.length, b) := by
  have hcompile := Query.compile_star name
  change (Program.compile ⟨[(name, ["*"])]⟩ >>= fun query => dir.count query.predicate).run b = _
  rw [Program.compile]
  cases hrefusal : Query.refusal? (Query.Key.ofText name) with
  | some e =>
    rw [hrefusal] at hcompile
    rw [hcompile]
    rfl
  | none =>
    rw [hrefusal] at hcompile
    obtain ⟨query, hquery, hasks⟩ := hcompile
    rw [hquery]
    refine (run_count havail wf query.predicate).trans ?_
    have hfound := (selects_select wf query.predicate).congr hasks
    rw [(hfound.length_eq_iff hasked fun _ _ h => h).mpr fun _ _ h => h]

/-- A name that stands for itself is counted without regard to case. -/
theorem countByProperty_plain_iff (havail : b.available = true)
    (wf : dir.channels.HoldsOnly Channel.Distinct b.store)
    (hvalid : validateName .property name = .ok ()) (hplain : Query.IsPlain name)
    (hcarriers : dir.Selects b.store (fun c => Carries Property c name) carriers) :
    (dir.countByProperty name none).run b = (.ok carriers.length, b) ↔
      ∀ c, dir.Stores b.store c →
        (∃ property ∈ c.properties, Query.SameFolded property.name name) →
          Carries Property c name := by
  obtain ⟨htrim, hne⟩ := trim_of_validateName hvalid
  have hkey := Query.ofText_of_isPlain htrim hplain
  have hrefusal : Query.refusal? ⟨name, false⟩ = none := Query.refusal?_of_isPlain hne hplain
  obtain ⟨asked, hasked⟩ := exists_selects wf (Query.AsksAny (Query.Key.ofText name))
  rw [run_countByProperty havail wf hasked, hkey, hrefusal]
  rw [hkey] at hasked
  have hfolded := hasked.congr fun c => Query.asksAny_plain_iff hplain
  have hle : ∀ c, dir.Stores b.store c → Carries Property c name →
      ∃ property ∈ c.properties, Query.SameFolded property.name name := by
    rintro c - ⟨property, hproperty, rfl⟩
    exact ⟨property, hproperty, rfl⟩
  rw [← hcarriers.length_eq_iff hfolded hle]
  simp

/-- The channels that carry a property are found by the exact count and by reading the members.
Counting by property counts what the name asks for as a key, or refuses the key. If the name
stands for itself, this count is the same exactly if no stored channel carries the name with other
letters only. -/
theorem countByProperty_eq_carriers_iff (dir : Directory) (b : Backend) (name : String)
    (havail : b.available = true) (hwindow : max dir.config.querySize 1 ≤ b.window)
    (wf : dir.WellFormed b.store) (hbudget : dir.Ample b.store)
    (hvalid : validateName .property name = .ok ()) :
    ∃ carriers asked, dir.Selects b.store (fun c => Carries Property c name) carriers ∧
      dir.Selects b.store (Query.AsksAny (Query.Key.ofText name)) asked ∧
      (dir.count (.hasProperty name)).run b = (.ok carriers.length, b) ∧
      (∀ record : Property,
        b.store.get? dir.config.propertyIndex name = some (toDocument record) →
          (dir.readAttribute Property name true).run b =
            (.ok (withChannels (Entity.stored record) carriers), b)) ∧
      (dir.countByProperty name none).run b =
        (match Query.refusal? (Query.Key.ofText name) with
          | some e => .failed (.query e)
          | none => .ok asked.length, b) ∧
      (Query.IsPlain name →
        ((dir.countByProperty name none).run b = (.ok carriers.length, b) ↔
          ∀ c, dir.Stores b.store c →
            (∃ property ∈ c.properties, Query.SameFolded property.name name) →
              Carries Property c name)) := by
  have hlists : dir.Lists Property b name :=
    lists_of_ample havail hwindow wf.channels hbudget name
  have hcarriers : dir.Selects b.store (fun c => Carries Property c name) _ :=
    selects_members wf.channels
  obtain ⟨asked, hasked⟩ := exists_selects wf.channels (Query.AsksAny (Query.Key.ofText name))
  refine ⟨_, asked, hcarriers, hasked, run_count havail wf.channels _, fun record hrecord => ?_,
    run_countByProperty havail wf.channels hasked,
    fun hplain => countByProperty_plain_iff havail wf.channels hvalid hplain hcarriers⟩
  exact run_readAttribute wf.channels hlists hrecord (LawfulEntity.decode_encode _)

/-- Two channels, one of which carries a property, also with another letter. -/
def bothLetters : Backend where
  store := usual.filled
    [⟨"A", "o", [], [⟨"X", "o", "3"⟩, ⟨"x", "o", "2"⟩]⟩, ⟨"B", "o", [], []⟩] []
    [⟨"x", "o", none, []⟩]

/-- Both counts agree, because the channel with the other letter carries the property itself. -/
theorem bothLetters_counted :
    (usual.countByProperty "x" none).run bothLetters = (.ok 1, bothLetters) ∧
      ∀ c, usual.Stores bothLetters.store c →
        (∃ property ∈ c.properties, Query.SameFolded property.name "x") →
          Carries Property c "x" := by
  have wf : usual.WellFormed bothLetters.store :=
    wellFormed_filled distinctIndices_usual (by decide) _ _
  obtain ⟨carriers, asked, -, -, hcount, -, hby, hplain⟩ := countByProperty_eq_carriers_iff usual
    bothLetters "x" rfl (by decide) wf (by decide) (by decide)
  have hlength : carriers.length = 1 := by
    have hexact : ((usual.count (.hasProperty "x")).run bothLetters).1 = .ok 1 := by
      with_unfolding_all rfl
    rw [hcount] at hexact
    exact Outcome.ok.inj hexact
  have hrun : (usual.countByProperty "x" none).run bothLetters = (.ok 1, bothLetters) := by
    have hkey : ((usual.countByProperty "x" none).run bothLetters).1 = .ok 1 := by
      with_unfolding_all rfl
    exact Prod.ext hkey (by rw [hby])
  exact ⟨hrun, (hplain (by decide)).mp (hlength ▸ hrun)⟩

/-- Two channels, one of which carries a property whose name ends in `!`. -/
def readyOnA : Backend where
  store := usual.filled [⟨"A", "o", [], [⟨"ready!", "o", "1"⟩]⟩, ⟨"B", "o", [], []⟩] []
    [⟨"ready!", "o", none, []⟩]

/-- The name is valid and one channel carries the property, but counting by property counts the
channels that do not have a property `ready`. -/
theorem readyOnA_counts_both : usual.WellFormed readyOnA.store ∧
    validateName .property "ready!" = .ok () ∧
    ((usual.count (.hasProperty "ready!")).run readyOnA).1 = .ok 1 ∧
    ((usual.readAttribute Property "ready!" true).run readyOnA).1 =
      .ok ⟨"ready!", "o", none, [⟨"A", "o", [], [⟨"ready!", "o", "1"⟩]⟩]⟩ ∧
    ((usual.countByProperty "ready!" none).run readyOnA).1 = .ok 2 := by
  have wf : usual.WellFormed readyOnA.store :=
    wellFormed_filled distinctIndices_usual (by decide) _ _
  refine ⟨wf, by decide, by with_unfolding_all rfl, by with_unfolding_all rfl, ?_⟩
  have habsent : (usual.channels.select (.not (.nested .properties (Query.propertyNamed "ready")))
      readyOnA.store).length = 2 := by
    decide +kernel
  change ((usual.count (.not (.nested .properties (Query.propertyNamed "ready")))).run
    readyOnA).1 = _
  rw [run_count rfl wf.channels, habsent]

end Directory

end ChannelDirectory
