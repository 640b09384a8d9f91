import ChannelDirectory.Proofs.Record.References

/-!
# Merging requests into a channel

Requests that are merged one after another add up : `Channel.mergedAll` is the channel that they
lead to, and it names what any of them names (`Channel.covers_mergedAll`). `Channel.Covers`
compares the names in two channels, and `Channel.SameMaps` the references that are found.
-/

namespace ChannelDirectory

section References

variable {ρ : Type} [Reference ρ] {refs other more : List ρ}

/-- Every name that the other references have is the name of one of the references. -/
def CoversRefs (refs other : List ρ) : Prop :=
  ∀ ref ∈ other, ∃ ref' ∈ refs, Reference.name ref' = Reference.name ref

/-- The same references are found under every name. -/
def SameRefs (refs other : List ρ) : Prop :=
  ∀ name, findRef? refs name = findRef? other name

theorem findRef?_eq_none_iff_reverse {name : String} :
    findRef? refs.reverse name = none ↔ findRef? refs name = none := by
  simp only [findRef?_eq_none_iff, List.mem_reverse]

/-- Names are covered if none of them is missed. -/
theorem coversRefs_iff :
    CoversRefs refs other ↔ ∀ name, findRef? refs name = none → findRef? other name = none := by
  constructor
  · intro h name hnone
    rw [findRef?_eq_none_iff] at hnone ⊢
    intro ref href heq
    obtain ⟨ref', href', hname⟩ := h ref href
    exact hnone ref' href' (hname.trans heq)
  · intro h ref href
    by_contra hmissed
    have hnone : findRef? refs (Reference.name ref) = none := by
      rw [findRef?_eq_none_iff]
      exact fun ref' href' heq => hmissed ⟨ref', href', heq⟩
    exact findRef?_eq_none_iff.mp (h _ hnone) ref href rfl

theorem coversRefs_refl (refs : List ρ) : CoversRefs refs refs :=
  fun ref href => ⟨ref, href, rfl⟩

theorem coversRefs_putRefs_iff :
    CoversRefs refs (putRefs other more) ↔ CoversRefs refs other ∧ CoversRefs refs more := by
  simp only [coversRefs_iff, findRef?_putRefs, Option.or_eq_none_iff, findRef?_eq_none_iff_reverse]
  exact ⟨fun h => ⟨fun name hn => (h name hn).2, fun name hn => (h name hn).1⟩,
    fun h name hn => ⟨h.2 name hn, h.1 name hn⟩⟩

theorem coversRefs_dedupRefs_iff : CoversRefs (dedupRefs refs) other ↔ CoversRefs refs other := by
  simp only [coversRefs_iff, findRef?_dedupRefs, findRef?_eq_none_iff_reverse]

end References

namespace Channel

/-- Every tag and every property that the other channel names is named by the channel. -/
def Covers (c other : Channel) : Prop :=
  CoversRefs c.tags other.tags ∧ CoversRefs c.properties other.properties

/-- The channels have the same tags and the same properties. -/
def SameMaps (c other : Channel) : Prop :=
  SameRefs c.tags other.tags ∧ SameRefs c.properties other.properties

/-- A request merged into the channel that there is, or on its own. -/
def mergeInto (existing : Option Channel) (request : Channel) : Channel :=
  match existing with
  | some c => c.merge request
  | none => request

/-- The channel that merging requests one after another leads to, if there is one. -/
def mergedAll (existing : Option Channel) (requests : List Channel) : Option Channel :=
  requests.foldl (fun existing request => some (mergeInto existing request)) existing

theorem sameMaps_refl (c : Channel) : c.SameMaps c :=
  ⟨fun _ => rfl, fun _ => rfl⟩

theorem covers_refl (c : Channel) : c.Covers c :=
  ⟨coversRefs_refl _, coversRefs_refl _⟩

theorem covers_merge_iff {d c request : Channel} :
    d.Covers (c.merge request) ↔ d.Covers c ∧ d.Covers request := by
  simp only [Covers, merge, coversRefs_putRefs_iff]
  exact and_and_and_comm

theorem covers_merge_left (c request : Channel) : (c.merge request).Covers c :=
  (covers_merge_iff.mp (covers_refl (c.merge request))).1

theorem covers_mergeInto_iff {d request : Channel} {existing : Option Channel} :
    d.Covers (mergeInto existing request) ↔
      (∀ c, existing = some c → d.Covers c) ∧ d.Covers request := by
  cases existing with
  | none => simp [mergeInto]
  | some c =>
    rw [mergeInto, covers_merge_iff]
    simp

theorem mergedAll_append_singleton (existing : Option Channel) (requests : List Channel)
    (request : Channel) : mergedAll existing (requests ++ [request]) =
      some (mergeInto (mergedAll existing requests) request) := by
  rw [mergedAll, List.foldl_append]
  rfl

/-- What all requests lead to is covered if each of them is, and what there was. -/
theorem covers_mergedAll {d : Channel} {existing : Option Channel} {requests : List Channel} :
    (∀ c, mergedAll existing requests = some c → d.Covers c) ↔
      ∀ c, existing = some c ∨ c ∈ requests → d.Covers c := by
  induction requests generalizing existing with
  | nil => simp [mergedAll]
  | cons request requests ih =>
    rw [mergedAll, List.foldl_cons, ← mergedAll, ih]
    constructor
    · intro h
      obtain ⟨hexisting, hrequest⟩ := covers_mergeInto_iff.mp (h _ (Or.inl rfl))
      rintro c (hc | hc)
      · exact hexisting c hc
      · rcases List.mem_cons.mp hc with rfl | hc
        · exact hrequest
        · exact h c (Or.inr hc)
    · rintro h c (hc | hc)
      · rw [← Option.some.inj hc]
        exact covers_mergeInto_iff.mpr ⟨fun c hc => h c (Or.inl hc),
          h request (Or.inr List.mem_cons_self)⟩
      · exact h c (Or.inr (List.mem_cons_of_mem _ hc))

theorem mergedAll_eq_none_iff {existing : Option Channel} {requests : List Channel} :
    mergedAll existing requests = none ↔ existing = none ∧ requests = [] := by
  rcases List.eq_nil_or_concat requests with rfl | ⟨init, last, rfl⟩
  · simp [mergedAll]
  · rw [List.concat_eq_append, mergedAll_append_singleton]
    simp

end Channel

end ChannelDirectory
