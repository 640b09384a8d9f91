import ChannelDirectory.Proofs.Json.RoundTrip
import ChannelDirectory.Proofs.Store.Contents
import ChannelDirectory.Store.Snapshot

/-!
# Snapshots loaded and saved

What `save` writes, `load` reads back (`Store.load_save`) : the store with all of its indices, also
the empty ones, provided that its documents are `Printable` at the depth that the objects around
them leave. In a store that was loaded only doubles can prevent that, since all of its documents are
`Legible` (`Store.load_legible`). `Store.All` carries such a property of documents from store to
store (`Store.All.after`).
-/

namespace ChannelDirectory

namespace Store

open Json

/-- How deep a document of a snapshot may be nested. -/
def documentDepth : Nat := maxDepth - 3

/-- Every document in every index has a property. -/
def All (P : Json → Prop) (s : Store) : Prop :=
  ∀ index id doc, s.get? index id = some doc → P doc

variable {P : Json → Prop} {s : Store}

theorem all_of_indices (h : ∀ e ∈ s.indices.entries, ∀ d ∈ e.2.entries, P d.2) : s.All P := by
  intro index id doc hget
  rw [get?, documents] at hget
  cases hindex : s.indices.get? index with
  | none => simp [hindex] at hget
  | some docs =>
    rw [hindex] at hget
    exact h _ (KeyMap.get?_eq_some_iff_mem.mp hindex) _ (KeyMap.get?_eq_some_iff_mem.mp hget)

theorem All.indices (h : s.All P) : ∀ e ∈ s.indices.entries, ∀ d ∈ e.2.entries, P d.2 := by
  rintro ⟨index, docs⟩ he ⟨id, doc⟩ hd
  refine h index id doc ?_
  rw [get?, documents, KeyMap.get?_eq_some_iff_mem.mpr he]
  exact KeyMap.get?_eq_some_iff_mem.mpr hd

theorem all_empty : empty.All P := by
  rintro index id doc ⟨⟩

/-- Writes of documents with a property keep it a property of all documents. -/
theorem All.after {ops : List Operation} (h : s.All P)
    (hops : ∀ op ∈ ops, ∀ doc ∈ op.doc?, P doc) : (s.after ops).All P := by
  induction ops generalizing s with
  | nil => exact h
  | cons op ops ih =>
    obtain ⟨hop, hops⟩ := List.forall_mem_cons.mp hops
    refine ih (fun index id doc hget => ?_) hops
    rcases get?_apply_cases hget with ⟨-, -, hdoc⟩ | hget
    · exact hop doc hdoc
    · exact h index id doc hget

/-! ## What is loaded -/

/-- Every document of the indices in a list can be nested in a snapshot. -/
def LegibleIndices (indices : List (String × Documents)) : Prop :=
  ∀ e ∈ indices, ∀ d ∈ e.2.entries, Legible documentDepth d.2

theorem exists_of_mapM_eq_some {α β : Type} {f : α → Option β} {items : List α} {values : List β}
    (h : items.mapM f = some values) {value : β} (hvalue : value ∈ values) :
    ∃ item ∈ items, f item = some value := by
  induction items generalizing values with
  | nil =>
    cases h
    cases hvalue
  | cons item items ih =>
    rw [List.mapM_cons, Option.bind_eq_bind, Option.bind_eq_some_iff] at h
    obtain ⟨first, hfirst, h⟩ := h
    obtain ⟨rest, hrest, h⟩ := Option.bind_eq_some_iff.mp h
    cases h
    rcases List.mem_cons.mp hvalue with rfl | hvalue
    · exact ⟨item, List.mem_cons_self, hfirst⟩
    · obtain ⟨item', hmem, hitem'⟩ := ih hrest hvalue
      exact ⟨item', List.mem_cons_of_mem _ hmem, hitem'⟩

/-- The documents of an index that is read are legible. -/
theorem indexOfJson?_legible {member : String × Json} {e : String × Documents}
    (h : indexOfJson? member = some e) (hmember : Legible (documentDepth + 1) member.2) :
    ∀ d ∈ e.2.entries, Legible documentDepth d.2 := by
  obtain ⟨docs, hdocs, rfl⟩ := Option.map_eq_some_iff.mp h
  obtain ⟨name, value⟩ := member
  cases hmember with
  | object _ legible =>
    cases hdocs
    exact fun d hd => legible d (KeyMap.mem_of_mem_entries_ofList hd)
  | _ => cases hdocs

/-- All indices that are read are legible. -/
theorem readIndices?_legible {cs rest : List Char} {indices : List (String × Documents)}
    (h : readIndices? cs = some (indices, rest)) : LegibleIndices indices := by
  rw [readIndices?] at h
  split at h
  · split at h
    · rename_i members _ hmembers
      obtain ⟨indices', hmap, heq⟩ := Option.map_eq_some_iff.mp h
      cases heq
      have hlegible := (readLegibly _).members _ _ _ _ hmembers
      intro e he
      obtain ⟨member, hmember, hindex⟩ := exists_of_mapM_eq_some hmap he
      exact indexOfJson?_legible hindex (hlegible member hmember)
    · cases h
  · cases h

/-- The indices that are found among the other members of a file are legible. -/
theorem readOuter?_legible {fuel : Nat} {found found' : Option (List (String × Documents))}
    {cs rest : List Char} (h : readOuter? fuel found cs = some (found', rest))
    (hfound : ∀ indices ∈ found, LegibleIndices indices) :
    ∀ indices ∈ found', LegibleIndices indices := by
  induction fuel generalizing found cs with
  | zero => cases h
  | succ fuel ih =>
    rw [readOuter?] at h
    split at h
    · cases h
    rename_i name cs₁ _
    simp only at h
    split at h
    · cases h
    rename_i after cs₂ hmember
    have hafter : ∀ indices ∈ after, LegibleIndices indices := by
      split at hmember
      · split at hmember
        · cases hmember
        · obtain ⟨_, hindices, heq⟩ := Option.map_eq_some_iff.mp hmember
          cases heq
          rintro _ ⟨⟩
          exact readIndices?_legible hindices
      · obtain ⟨_, -, heq⟩ := Option.map_eq_some_iff.mp hmember
        cases heq
        exact hfound
    split at h
    · exact ih h hafter
    · cases h
      exact hafter
    · cases h

/-- A snapshot that is read is legible. -/
theorem readSnapshot?_legible {cs rest : List Char} {indices : List (String × Documents)}
    (h : readSnapshot? cs = some (indices, rest)) : LegibleIndices indices := by
  rw [readSnapshot?] at h
  split at h
  · split at h
    · rename_i houter
      cases h
      exact readOuter?_legible houter (by rintro _ ⟨⟩) _ rfl
    · cases h
  · split at h
    · rename_i hindices
      split at h
      · cases h
        exact readIndices?_legible hindices
      · cases h
    · cases h
  · cases h

/-- The documents of a store that is loaded can be nested in a snapshot. -/
theorem load_legible {text : String} (h : load text = some s) : s.All (Legible documentDepth) := by
  rw [load] at h
  split at h
  · rename_i indices rest hread
    split at h
    · cases h
      have hlegible := readSnapshot?_legible hread
      exact all_of_indices fun e he => hlegible e (KeyMap.mem_of_mem_entries_ofList he)
    · cases h
  · cases h

/-! ## What is saved -/

/-- The members of the object that stands for the indices. -/
def indexMembers (s : Store) : List (String × Json) :=
  (s.indices.mapValues fun _ docs => Json.object docs.entries).entries

/-- The indices of a store are read back from what is saved. -/
theorem mapM_indexOfJson?_indexMembers (s : Store) :
    s.indexMembers.mapM indexOfJson? = some s.indices.entries := by
  change (s.indices.entries.map fun e => (e.1, Json.object e.2.entries)).mapM indexOfJson? = _
  generalize s.indices.entries = entries
  induction entries with
  | nil => rfl
  | cons e entries ih =>
    rw [List.map_cons, List.mapM_cons, ih]
    simp [indexOfJson?, documentsOfJson?, KeyMap.ofList_entries]

/-- The indices are read back as they were printed. -/
theorem readIndices?_printed (h : s.All (Printable documentDepth)) (level : Nat)
    (rest : List Char) :
    readIndices? (' ' :: (prettyAt level s.toJson).toList ++ rest) =
      some (s.indices.entries, rest) := by
  have hmembers : ∀ e ∈ s.indexMembers,
      ReadsAs (maxDepth - 2) (prettyAt (level + 1) e.2) e.2 := by
    intro e he
    obtain ⟨⟨name, docs⟩, hdocs, rfl⟩ := List.mem_map.mp he
    exact readValue_prettyAt
      (.object docs.ascending fun d hd => (h.indices _ hdocs d hd).legible)
      (.object fun d hd => (h.indices _ hdocs d hd).free) (level + 1)
  have htext : (prettyAt level s.toJson).toList =
      '{' :: inside '}' level (prettyMembers (level + 1) s.indexMembers) :=
    prettyAt_object_toList level s.indexMembers
  have hblank : ∀ cs, skipSpace (' ' :: '{' :: cs) = '{' :: cs := fun _ => rfl
  rw [htext, List.cons_append, List.cons_append, readIndices?, hblank]
  simp only
  rw [readMembers_printed hmembers (by rw [fuelFor, List.length_append]; omega)]
  simp only [mapM_indexOfJson?_indexMembers, Option.map_some]

/-- A store that is saved is loaded as it was. -/
theorem load_save (h : s.All (Printable documentDepth)) :
    load s.save = some s := by
  have htext : s.save.toList = '{' :: ((newline 1).toList ++
      ((printString "indices" ++ ": ").toList ++ ((prettyAt 1 s.toJson).toList ++
        ((newline 0).toList ++ ['}'])))) := by
    rw [save, pretty, prettyAt_object_toList, prettyMembers, prettyMembers, inside_cons,
      lines_singleton, String.toList_append, List.append_assoc]
  have hsnapshot : readSnapshot? s.save.toList = some (s.indices.entries, []) := by
    rw [htext, readSnapshot?, skipSpace_cons_of_visible rfl]
    simp only
    rw [fuelFor, readOuter?, readName_congr (skipSpace_newline 1 _), readName_printed]
    simp only [reduceIte, Option.isSome_none, Bool.false_eq_true]
    rw [← List.cons_append, readIndices?_printed h]
    simp only [Option.map_some, skipSpace_closing '}' rfl 0 []]
  rw [load, hsnapshot]
  simp only [KeyMap.ofList_entries]
  rfl

end Store

end ChannelDirectory
