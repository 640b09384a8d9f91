import ChannelDirectory.Proofs.Query.Collecting

/-!
# Spellings of a key

A key can be spelled with blanks around it, and its negation as `!` or `!=`. Parameters collect
values by raw keys, and the compiler reads the keys only afterwards, so what is given under two
spellings of one key stays apart. `Query.respelled` gives every pair its usual spelling, which makes
one key of them.

If a key is spelled in one way only, or is `Forgiving`, nothing changes (`Query.agree_respelled`),
and all values of the key are collected (`Query.collected_compile`). The forgiving keys are the
negated `~name` and `~tag`, whose values are excluded one by one, and those that are always refused.
Any other key that is spelled in two ways asks for something else : two groups of values are asked
for instead of one, or the page is that of the last spelling (`Query.spelling_matters`).
-/

namespace ChannelDirectory

/-! ## Blanks -/

namespace Text

/-- The text does not begin with a blank. -/
def Clear (cs : List Char) : Prop :=
  ∀ c ∈ cs.head?, isBlank c = false

variable {cs ds : List Char} {c : Char}

theorem dropWhile_of_clear (h : Clear cs) : cs.dropWhile isBlank = cs := by
  cases cs with
  | nil => rfl
  | cons c cs => rw [List.dropWhile_cons, if_neg (by rw [h c rfl]; decide)]

theorem clear_dropWhile (cs : List Char) : Clear (cs.dropWhile isBlank) := by
  intro c hc
  have hhead := List.head?_dropWhile_not isBlank cs
  rw [Option.mem_def.mp hc] at hhead
  simpa using hhead

theorem Clear.of_append (h : Clear (cs ++ ds)) : Clear cs := by
  intro c hc
  refine h c ?_
  rw [List.head?_append, Option.mem_def.mp hc]
  rfl

theorem Clear.concat (h : Clear cs) (hc : isBlank c = false) : Clear (cs ++ [c]) := by
  cases cs with
  | nil =>
    intro c' hc'
    obtain rfl : c = c' := by simpa using hc'
    exact hc
  | cons d cs => exact fun c' hc' => h c' hc'

theorem Clear.dropBlanksRight (h : Clear cs) : Clear (dropBlanksRight cs) := by
  obtain ⟨tail, htail, -⟩ := exists_append_dropBlanksRight cs
  rw [htail] at h
  exact h.of_append

theorem dropBlanksRight_concat (h : isBlank c = false) :
    dropBlanksRight (cs ++ [c]) = cs ++ [c] := by
  simp [Text.dropBlanksRight, h]

theorem dropBlanksRight_concat_blank (h : isBlank c = true) :
    dropBlanksRight (cs ++ [c]) = dropBlanksRight cs := by
  simp [Text.dropBlanksRight, h]

theorem dropBlanksRight_dropBlanksRight (cs : List Char) :
    dropBlanksRight (dropBlanksRight cs) = dropBlanksRight cs := by
  have hclear := dropWhile_of_clear (clear_dropWhile cs.reverse)
  rw [Text.dropBlanksRight, Text.dropBlanksRight, List.reverse_reverse, hclear]

theorem clear_trimChars (cs : List Char) : Clear (trimChars cs) :=
  (clear_dropWhile cs).dropBlanksRight

theorem trimChars_trimChars (cs : List Char) : trimChars (trimChars cs) = trimChars cs := by
  rw [trimChars, dropWhile_of_clear (clear_trimChars cs), trimChars,
    dropBlanksRight_dropBlanksRight]

theorem trimChars_concat_blank (cs : List Char) (h : isBlank c = true) :
    trimChars (cs ++ [c]) = trimChars cs := by
  rw [trimChars, List.dropWhile_append, trimChars]
  split
  · rename_i hempty
    rw [List.isEmpty_iff.mp hempty]
    simp [Text.dropBlanksRight, h]
  · exact dropBlanksRight_concat_blank h

end Text

namespace Query

open QueryParams

/-! ## The usual spelling -/

/-- The key as it is usually spelled : its name, and one sign of negation. -/
def Key.text (key : Key) : String :=
  if key.negated then key.name ++ "!" else key.name

theorem ofText_congr {raw raw' : String}
    (h : Text.trimChars raw.toList = Text.trimChars raw'.toList) :
    Key.ofText raw = Key.ofText raw' := by
  rw [Key.ofText, h, Key.ofText]

/-- A blank at its end does not change how a key is read. -/
theorem ofText_append_blank (raw : String) : Key.ofText (raw ++ " ") = Key.ofText raw := by
  refine ofText_congr ?_
  rw [String.toList_append]
  exact Text.trimChars_concat_blank raw.toList (by decide)

/-- A negated name is read as it was. -/
theorem ofText_negated_text {name : String} (h : Text.Clear name.toList) :
    Key.ofText (Key.text ⟨Text.trimRight name, true⟩) = ⟨Text.trimRight name, true⟩ := by
  have hchars : Text.trimChars (Text.trimRight name ++ "!").toList =
      (Text.trimRight name ++ "!").toList := by
    have hclear : Text.Clear (Text.dropBlanksRight name.toList ++ ['!']) :=
      h.dropBlanksRight.concat (by decide)
    rw [Text.trimRight, String.toList_append, String.toList_ofList]
    change Text.trimChars (Text.dropBlanksRight name.toList ++ ['!']) = _
    rw [Text.trimChars, Text.dropWhile_of_clear hclear, Text.dropBlanksRight_concat (by decide)]
    rfl
  have htrim : Text.trim (Text.trimRight name ++ "!") = Text.trimRight name ++ "!" := by
    rw [Text.trim, hchars, String.ofList_toList]
  have hname : Text.trimRight (Text.trimRight name) = Text.trimRight name := by
    simp only [Text.trimRight, String.toList_ofList, Text.dropBlanksRight_dropBlanksRight]
  rw [Key.text, if_pos rfl, ofText_of_negated htrim, hname]

/-- The usual spelling of a key is read as that key. -/
theorem ofText_text (raw : String) : Key.ofText (Key.ofText raw).text = Key.ofText raw := by
  have hclear : Text.Clear (Text.trim raw).toList := by
    rw [Text.trim, String.toList_ofList]
    exact Text.clear_trimChars raw.toList
  have hspells := spells_ofText raw
  generalize hkey : Key.ofText raw = key at hspells ⊢
  cases hspells with
  | unequal hname =>
    rw [hname, String.toList_append] at hclear
    exact ofText_negated_text hclear.of_append
  | negated hname =>
    rw [hname, String.toList_append] at hclear
    exact ofText_negated_text hclear.of_append
  | plain =>
    refine (ofText_congr ?_).trans hkey
    change Text.trimChars (Text.trim raw).toList = _
    rw [Text.trim, String.toList_ofList, Text.trimChars_trimChars]

theorem text_inj {raw raw' : String} :
    (Key.ofText raw').text = (Key.ofText raw).text ↔ Key.ofText raw' = Key.ofText raw := by
  constructor
  · intro h
    rw [← ofText_text raw', h, ofText_text]
  · exact congrArg Key.text

/-- The pairs with every key in its usual spelling. -/
def respelled (pairs : List (String × String)) : List (String × String) :=
  pairs.map fun pair => ((Key.ofText pair.1).text, pair.2)

/-- The values given for a key, however it is spelled. -/
def valuesOf (pairs : List (String × String)) (key : Key) : List String :=
  (pairs.filter fun pair => Key.ofText pair.1 = key).map Prod.snd

/-- The values given for a name, with or without a sign of negation. -/
def valuesNamed (pairs : List (String × String)) (name : String) : List String :=
  (pairs.filter fun pair => (Key.ofText pair.1).name = name).map Prod.snd

variable {pairs pairs' : List (String × String)} {raw : String} {key : Key} {c : Channel}
  {query : Query} {value value' : String}

theorem valuesUnder_respelled (pairs : List (String × String)) (raw : String) :
    valuesUnder (respelled pairs) (Key.ofText raw).text = valuesOf pairs (Key.ofText raw) := by
  rw [valuesUnder, respelled, List.filter_map, List.map_map, valuesOf]
  congr 1
  refine List.filter_congr fun pair _ => ?_
  exact decide_eq_decide.mpr text_inj

theorem accepts_respelled :
    (∀ pair ∈ respelled pairs, Accepts (pair.1, [pair.2])) ↔
      ∀ pair ∈ pairs, Accepts (pair.1, [pair.2]) := by
  simp only [respelled, List.forall_mem_map, Accepts, ofText_text]

/-! ## What is asked for -/

/-- What is asked of a channel : under every raw key, one of the values given under it. -/
theorem holds_ofPairs_iff (h : compile (.ofPairs pairs) = .ok query) (c : Channel) :
    query.predicate.holds (toDocument c) = true ↔
      ∀ pair ∈ pairs, Asks (Key.ofText pair.1) (valuesUnder pairs pair.1) c := by
  simp only [holds_compile_iff h, forall_mem_entries_iff, entryHolds_iff]

/-- In the usual spelling, the values of a key are collected. -/
theorem holds_respelled_iff (h : compile (.ofPairs (respelled pairs)) = .ok query) (c : Channel) :
    query.predicate.holds (toDocument c) = true ↔
      ∀ pair ∈ pairs, Asks (Key.ofText pair.1) (valuesOf pairs (Key.ofText pair.1)) c := by
  rw [holds_ofPairs_iff h, respelled, List.forall_mem_map]
  simp only [ofText_text]
  exact forall₂_congr fun pair _ => by rw [← valuesUnder_respelled, respelled]

/-- The values of such a key may be given in several groups : they are excluded one by one, or
the key is refused anyway. -/
def Key.Forgiving (key : Key) : Prop :=
  key.name = "" ∨ key.negated = true ∧ key.name ∈ ["~name", "~tag"]

instance : DecidablePred Key.Forgiving :=
  fun key => inferInstanceAs (Decidable (key.name = "" ∨ _))

/-- A negated condition on fewer values is a weaker one. -/
theorem Key.Forgiving.asks_mono (h : key.Forgiving) (hname : key.name ≠ "")
    {values values' : List String} (hsub : values' ⊆ values) (hasks : Asks key values c) :
    Asks key values' c := by
  have hmatched : ∀ text, Matched values' text → Matched values text := by
    rintro text ⟨value, hvalue, hrest⟩
    exact ⟨value, hsub hvalue, hrest⟩
  obtain ⟨name, negated⟩ := key
  obtain ⟨rfl, hreserved⟩ := h.resolve_left hname
  rcases List.mem_cons.mp hreserved with rfl | hreserved
  · exact mt (hmatched c.name) hasks
  · obtain rfl := List.mem_singleton.mp hreserved
    rintro ⟨tag, htag, hmatch⟩
    exact hasks ⟨tag, htag, hmatched _ hmatch⟩

/-- A negated condition holds of some values if it does of each. -/
theorem Key.Forgiving.asks_of_forall (h : key.Forgiving) (hname : key.name ≠ "")
    {values : List String} (hasks : ∀ value ∈ values, Asks key [value] c) : Asks key values c := by
  have hmatched : ∀ text, Matched values text → ∃ value ∈ values, Matched [value] text := by
    rintro text ⟨value, hvalue, hrest⟩
    exact ⟨value, hvalue, value, List.mem_singleton_self value, hrest⟩
  obtain ⟨name, negated⟩ := key
  obtain ⟨rfl, hreserved⟩ := h.resolve_left hname
  rcases List.mem_cons.mp hreserved with rfl | hreserved
  · intro hmatch
    obtain ⟨value, hvalue, hone⟩ := hmatched _ hmatch
    exact hasks value hvalue hone
  · obtain rfl := List.mem_singleton.mp hreserved
    rintro ⟨tag, htag, hmatch⟩
    obtain ⟨value, hvalue, hone⟩ := hmatched _ hmatch
    exact hasks value hvalue ⟨tag, htag, hone⟩

/-- Every key that is not forgiving is spelled in one way only. -/
def SpelledOnce (pairs : List (String × String)) : Prop :=
  ∀ pair ∈ pairs, ¬(Key.ofText pair.1).Forgiving →
    ∀ pair' ∈ pairs, Key.ofText pair'.1 = Key.ofText pair.1 → pair'.1 = pair.1

theorem valuesUnder_subset_valuesOf (pairs : List (String × String)) (raw : String) :
    valuesUnder pairs raw ⊆ valuesOf pairs (Key.ofText raw) := by
  refine List.map_subset _ fun pair hpair => ?_
  obtain ⟨hmem, hraw⟩ := List.mem_filter.mp hpair
  refine List.mem_filter.mpr ⟨hmem, ?_⟩
  simp [of_decide_eq_true hraw]

instance (pairs : List (String × String)) : Decidable (SpelledOnce pairs) :=
  inferInstanceAs (Decidable (∀ pair ∈ pairs, ¬_ → ∀ pair' ∈ pairs, _ = _ → _ = _))

/-- If it matters, no key is spelled in two ways, and its values are together. -/
theorem SpelledOnce.asks_iff (once : SpelledOnce pairs)
    (accepted : ∀ pair ∈ pairs, Accepts (pair.1, [pair.2])) :
    (∀ pair ∈ pairs, Asks (Key.ofText pair.1) (valuesUnder pairs pair.1) c) ↔
      ∀ pair ∈ pairs, Asks (Key.ofText pair.1) (valuesOf pairs (Key.ofText pair.1)) c := by
  have hsame : ∀ pair ∈ pairs, ¬(Key.ofText pair.1).Forgiving →
      valuesUnder pairs pair.1 = valuesOf pairs (Key.ofText pair.1) := by
    intro pair hpair hkey
    rw [valuesUnder, valuesOf]
    congr 1
    refine List.filter_congr fun pair' hpair' => decide_eq_decide.mpr ?_
    exact ⟨congrArg Key.ofText, once pair hpair hkey pair' hpair'⟩
  constructor
  · intro h pair hpair
    by_cases hkey : (Key.ofText pair.1).Forgiving
    · refine hkey.asks_of_forall (accepted pair hpair).1 fun value hvalue => ?_
      obtain ⟨pair', hpair', rfl⟩ := List.mem_map.mp hvalue
      obtain ⟨hmem, hsame⟩ := List.mem_filter.mp hpair'
      rw [← of_decide_eq_true hsame] at hkey ⊢
      refine hkey.asks_mono (accepted pair' hmem).1 ?_ (h pair' hmem)
      exact List.cons_subset.mpr ⟨mem_valuesUnder hmem, List.nil_subset _⟩
    · rw [← hsame pair hpair hkey]
      exact h pair hpair
  · intro h pair hpair
    by_cases hkey : (Key.ofText pair.1).Forgiving
    · exact hkey.asks_mono (accepted pair hpair).1 (valuesUnder_subset_valuesOf pairs pair.1)
        (h pair hpair)
    · rw [hsame pair hpair hkey]
      exact h pair hpair

/-! ## Which page is asked for -/

theorem not_forgiving_of_paging (h : key.name ∈ pagingKeys) : ¬key.Forgiving := by
  obtain ⟨name, negated⟩ := key
  simp only [pagingKeys, List.mem_cons, List.not_mem_nil, or_false] at h
  rcases h with rfl | rfl | rfl | rfl <;> simp [Key.Forgiving]

theorem filter_respelled (pairs : List (String × String)) (q : Key → Bool) :
    (respelled pairs).filter (fun pair => q (Key.ofText pair.1)) =
      respelled (pairs.filter fun pair => q (Key.ofText pair.1)) := by
  rw [respelled, List.filter_map, respelled]
  simp only [Function.comp_def, ofText_text]

/-- A paging key that is spelled once has its entries where it had them. -/
theorem SpelledOnce.lastUnder_eq {β : Type} (once : SpelledOnce pairs) {name : String}
    (hname : name ∈ pagingKeys) (read : List String → Option β) :
    lastUnder name read (ofPairs (respelled pairs)).entries =
      lastUnder name read (ofPairs pairs).entries := by
  have hentries : (ofPairs (respelled pairs)).entries.filter
        (fun entry => (Key.ofText entry.1).name = name) =
      ((ofPairs pairs).entries.filter fun entry => (Key.ofText entry.1).name = name).map
        fun entry => ((Key.ofText entry.1).text, entry.2) := by
    rw [filter_entries_ofPairs _ fun raw => decide ((Key.ofText raw).name = name),
      filter_entries_ofPairs _ fun raw => decide ((Key.ofText raw).name = name),
      filter_respelled pairs fun key => decide (key.name = name)]
    refine entries_ofPairs_map (fun raw => (Key.ofText raw).text)
      fun pair hpair pair' hpair' h => ?_
    obtain ⟨hmem, hpaging⟩ := List.mem_filter.mp hpair
    have hkey : ¬(Key.ofText pair.1).Forgiving :=
      not_forgiving_of_paging (of_decide_eq_true hpaging ▸ hname)
    exact once pair hmem hkey pair' (List.mem_filter.mp hpair').1 (text_inj.mp h)
  rw [lastUnder, hentries, lastUnder, ← List.map_reverse, List.findSome?_map]
  rfl

/-- Every paging key is spelled in one way only, with a sign of negation or without. -/
def PagedOnce (pairs : List (String × String)) : Prop :=
  ∀ pair ∈ pairs, (Key.ofText pair.1).name ∈ pagingKeys →
    ∀ pair' ∈ pairs, (Key.ofText pair'.1).name = (Key.ofText pair.1).name → pair'.1 = pair.1

instance (pairs : List (String × String)) : Decidable (PagedOnce pairs) :=
  inferInstanceAs (Decidable (∀ pair ∈ pairs, _ ∈ pagingKeys → ∀ pair' ∈ pairs, _ = _ → _ = _))

/-- All values for a paging key are read together. -/
theorem PagedOnce.lastUnder_eq {β : Type} (once : PagedOnce pairs) {name : String}
    (hname : name ∈ pagingKeys) {read : List String → Option β} (hnone : read [] = none) :
    lastUnder name read (ofPairs pairs).entries = read (valuesNamed pairs name) := by
  rw [lastUnder, filter_entries_ofPairs _ fun raw => decide ((Key.ofText raw).name = name),
    valuesNamed]
  generalize hnamed : pairs.filter (fun pair => decide ((Key.ofText pair.1).name = name)) = named
  cases named with
  | nil => exact hnone.symm
  | cons pair rest =>
    have hmem : ∀ pair' ∈ pair :: rest, pair' ∈ pairs ∧ (Key.ofText pair'.1).name = name := by
      intro pair' hpair'
      obtain ⟨hpair', hkey⟩ := List.mem_filter.mp (hnamed ▸ hpair')
      exact ⟨hpair', of_decide_eq_true hkey⟩
    obtain ⟨hpair, hkey⟩ := hmem pair List.mem_cons_self
    have hone : ∀ pair' ∈ pair :: rest, pair'.1 = pair.1 := fun pair' hpair' =>
      once pair hpair (hkey ▸ hname) pair' (hmem pair' hpair').1
        ((hmem pair' hpair').2.trans hkey.symm)
    rw [entries_ofPairs_of_one (List.cons_ne_nil _ _) hone, List.reverse_singleton,
      List.findSome?_singleton]

/-! ## Agreement -/

/-- The queries ask for the same page of the same channels. -/
structure SameQuery (query query' : Query) : Prop where
  holds_iff : ∀ c : Channel,
    query'.predicate.holds (toDocument c) = true ↔ query.predicate.holds (toDocument c) = true
  size : query'.size = query.size
  offset : query'.offset = query.offset
  searchAfter : query'.searchAfter = query.searchAfter
  trackTotal : query'.trackTotal = query.trackTotal

/-- Both lists of pairs compile, to queries that ask for the same, or neither does. -/
structure Agree (pairs pairs' : List (String × String)) : Prop where
  compiles_iff : (∃ query, compile (.ofPairs pairs') = .ok query) ↔
    ∃ query, compile (.ofPairs pairs) = .ok query
  same : ∀ query query', compile (.ofPairs pairs) = .ok query →
    compile (.ofPairs pairs') = .ok query' → SameQuery query query'

/-- What a query asks for that collects all values of a key, however it is spelled. -/
structure Collected (pairs : List (String × String)) (query : Query) : Prop where
  holds_iff : ∀ c : Channel, query.predicate.holds (toDocument c) = true ↔
    ∀ pair ∈ pairs, Asks (Key.ofText pair.1) (valuesOf pairs (Key.ofText pair.1)) c
  size : query.size = greatest? (valuesNamed pairs "~size")
  offset : query.offset = greatest? (valuesNamed pairs "~from")
  searchAfter : query.searchAfter = firstTrimmed? (valuesNamed pairs "~search_after")
  trackTotal : query.trackTotal =
    (firstSwitch? (valuesNamed pairs "~track_total_hits")).getD false

theorem compiles_respelled_iff (pairs : List (String × String)) :
    (∃ query, compile (.ofPairs (respelled pairs)) = .ok query) ↔
      ∃ query, compile (.ofPairs pairs) = .ok query := by
  rw [exists_compile_iff, accepts_respelled, exists_compile_iff]

/-- Where it matters, a key that is spelled once may be spelled as usual. -/
theorem agree_respelled (once : SpelledOnce pairs) : Agree pairs (respelled pairs) := by
  refine ⟨compiles_respelled_iff pairs, fun query query' h h' => ?_⟩
  have hpaged := paged_compile h
  have hpaged' := paged_compile h'
  constructor
  · intro c
    rw [holds_respelled_iff h' c, holds_ofPairs_iff h c]
    exact (once.asks_iff (exists_compile_iff.mp ⟨query, h⟩)).symm
  · rw [hpaged'.size, once.lastUnder_eq (by decide), hpaged.size]
  · rw [hpaged'.offset, once.lastUnder_eq (by decide), hpaged.offset]
  · rw [hpaged'.searchAfter, once.lastUnder_eq (by decide), hpaged.searchAfter]
  · rw [hpaged'.trackTotal, once.lastUnder_eq (by decide), hpaged.trackTotal]

theorem collected_compile (once : SpelledOnce pairs) (paging : PagedOnce pairs)
    (h : compile (.ofPairs pairs) = .ok query) : Collected pairs query := by
  have hpaged := paged_compile h
  constructor
  · intro c
    rw [holds_ofPairs_iff h c, once.asks_iff (exists_compile_iff.mp ⟨query, h⟩)]
  · rw [hpaged.size, paging.lastUnder_eq (by decide) rfl]
  · rw [hpaged.offset, paging.lastUnder_eq (by decide) rfl]
  · rw [hpaged.searchAfter, paging.lastUnder_eq (by decide) rfl]
  · rw [hpaged.trackTotal, paging.lastUnder_eq (by decide) rfl]

/-! ## Keys that are spelled twice -/

/-- Two values for one key, the second one after a spelling with a blank. -/
def spelledTwice (key : Key) (value value' : String) : List (String × String) :=
  [(key.text, value), (key.text ++ " ", value')]

theorem ofText_of_mem_spelledTwice :
    ∀ pair ∈ spelledTwice (Key.ofText raw) value value', Key.ofText pair.1 = Key.ofText raw := by
  simp [spelledTwice, ofText_append_blank, ofText_text]

theorem entries_spelledTwice (key : Key) (value value' : String) :
    (ofPairs (spelledTwice key value value')).entries =
      [(key.text, [value]), (key.text ++ " ", [value'])] := by
  have hne : key.text ≠ key.text ++ " " := by
    intro h
    have hlength := congrArg String.length h
    rw [String.length_append] at hlength
    exact absurd hlength (Nat.ne_of_lt (Nat.lt_succ_self _))
  change addTo (key.text ++ " ") value' [(key.text, [value])] = _
  rw [addTo, if_neg hne]
  rfl

theorem entries_respelled_spelledTwice (raw value value' : String) :
    (ofPairs (respelled (spelledTwice (Key.ofText raw) value value'))).entries =
      [((Key.ofText raw).text, [value, value'])] := by
  have hrespelled : respelled (spelledTwice (Key.ofText raw) value value') =
      [((Key.ofText raw).text, value), ((Key.ofText raw).text, value')] := by
    simp [respelled, spelledTwice, ofText_append_blank, ofText_text]
  rw [hrespelled]
  change addTo (Key.ofText raw).text value' [((Key.ofText raw).text, [value])] = _
  rw [addTo, if_pos rfl]
  rfl

/-- If both spellings agree with one, the values may be asked for apart, and the last one decides
on the page. -/
theorem Agree.of_spelledTwice
    (h : Agree (spelledTwice (Key.ofText raw) value value')
      (respelled (spelledTwice (Key.ofText raw) value value')))
    (accepted : Accepts (raw, [value, value'])) :
    (∀ c, Asks (Key.ofText raw) [value, value'] c ↔
        Asks (Key.ofText raw) [value] c ∧ Asks (Key.ofText raw) [value'] c) ∧
      ∃ query,
        Paged [((Key.ofText raw).text, [value]), ((Key.ofText raw).text ++ " ", [value'])] query ∧
          Paged [((Key.ofText raw).text, [value, value'])] query := by
  have hcompiles : ∀ pair ∈ spelledTwice (Key.ofText raw) value value',
      Accepts (pair.1, [pair.2]) := by
    intro pair hpair
    rw [Accepts, ofText_of_mem_spelledTwice pair hpair]
    refine ⟨accepted.1, fun hnumber v hv => accepted.2 hnumber v ?_⟩
    rw [List.mem_singleton.mp hv]
    rcases List.mem_cons.mp hpair with rfl | hpair
    · exact List.mem_cons_self
    · obtain rfl := List.mem_singleton.mp hpair
      exact List.mem_cons_of_mem _ List.mem_cons_self
  obtain ⟨query, hquery⟩ := exists_compile_iff.mpr hcompiles
  obtain ⟨query', hquery'⟩ := h.compiles_iff.mpr ⟨query, hquery⟩
  have hsame := h.same query query' hquery hquery'
  have hholds := fun c => holds_compile_iff hquery c
  have hholds' := fun c => holds_compile_iff hquery' c
  have hpaged := paged_compile hquery
  have hpaged' := paged_compile hquery'
  simp only [entries_spelledTwice, entries_respelled_spelledTwice, List.forall_mem_cons,
    entryHolds_iff, ofText_append_blank, ofText_text, List.not_mem_nil, false_implies,
    implies_true, and_true] at hholds hholds'
  rw [entries_spelledTwice] at hpaged
  rw [entries_respelled_spelledTwice] at hpaged'
  refine ⟨fun c => ?_, query, hpaged, ?_⟩
  · rw [← hholds' c, hsame.holds_iff c, hholds c]
  · constructor
    · rw [← hsame.size, hpaged'.size]
    · rw [← hsame.offset, hpaged'.offset]
    · rw [← hsame.searchAfter, hpaged'.searchAfter]
    · rw [← hsame.trackTotal, hpaged'.trackTotal]

theorem lastUnder_spelledTwice {β : Type} {name : String} (hname : (Key.ofText raw).name = name)
    (read : List String → Option β) :
    lastUnder name read
        [((Key.ofText raw).text, [value]), ((Key.ofText raw).text ++ " ", [value'])] =
      (read [value']).or (read [value]) := by
  rw [lastUnder_cons, lastUnder_singleton, lastUnder_singleton, ofText_append_blank, ofText_text,
    if_pos hname, if_pos hname]

theorem lastUnder_spelledOnce {β : Type} {name : String} (hname : (Key.ofText raw).name = name)
    (read : List String → Option β) :
    lastUnder name read [((Key.ofText raw).text, [value, value'])] = read [value, value'] := by
  rw [lastUnder_singleton, ofText_text, if_pos hname]

/-- The values ask for something else when they are given apart. -/
inductive Parted (key : Key) (value value' : String) : Prop
  | asks (c : Channel) : Asks key [value, value'] c →
      ¬(Asks key [value] c ∧ Asks key [value'] c) → Parted key value value'
  | size : key.name = "~size" →
      greatest? [value, value'] ≠ (greatest? [value']).or (greatest? [value]) →
      Parted key value value'
  | offset : key.name = "~from" →
      greatest? [value, value'] ≠ (greatest? [value']).or (greatest? [value]) →
      Parted key value value'
  | searchAfter : key.name = "~search_after" →
      firstTrimmed? [value, value'] ≠ (firstTrimmed? [value']).or (firstTrimmed? [value]) →
      Parted key value value'
  | trackTotal : key.name = "~track_total_hits" →
      (firstSwitch? [value, value']).getD false ≠
        ((firstSwitch? [value']).or (firstSwitch? [value])).getD false →
      Parted key value value'

/-- A key does not agree with itself if two values for it are parted by its spellings. -/
theorem Parted.not_agree (h : Parted (Key.ofText raw) value value')
    (accepted : Accepts (raw, [value, value'])) :
    ¬Agree (spelledTwice (Key.ofText raw) value value')
      (respelled (spelledTwice (Key.ofText raw) value value')) := by
  intro hagree
  obtain ⟨hasks, query, hpaged, hpaged'⟩ := hagree.of_spelledTwice accepted
  cases h with
  | asks c hc hnot => exact hnot ((hasks c).mp hc)
  | size hname hne =>
    have hsize := hpaged'.size.symm.trans hpaged.size
    rw [lastUnder_spelledTwice hname, lastUnder_spelledOnce hname] at hsize
    exact hne hsize
  | offset hname hne =>
    have hoffset := hpaged'.offset.symm.trans hpaged.offset
    rw [lastUnder_spelledTwice hname, lastUnder_spelledOnce hname] at hoffset
    exact hne hoffset
  | searchAfter hname hne =>
    have hafter := hpaged'.searchAfter.symm.trans hpaged.searchAfter
    rw [lastUnder_spelledTwice hname, lastUnder_spelledOnce hname] at hafter
    exact hne hafter
  | trackTotal hname hne =>
    have htotal := hpaged'.trackTotal.symm.trans hpaged.trackTotal
    rw [lastUnder_spelledTwice hname, lastUnder_spelledOnce hname] at htotal
    exact hne htotal

theorem matched_a : Matched ["a", "b"] "a" := exists_pattern_iff.mp (by decide)

theorem not_matched_b : ¬Matched ["b"] "a" := mt exists_pattern_iff.mpr (by decide)

/-- Of every key that is not forgiving there are two values that are parted. -/
theorem exists_parted (hkey : ¬key.Forgiving) :
    ∃ value value', (key.name ∈ ["~size", "~from"] →
      ∀ v ∈ [value, value'], (number? v).isSome) ∧ Parted key value value' := by
  by_cases hsize : key.name = "~size"
  · exact ⟨"2", "1", fun _ => by decide, .size hsize (by decide)⟩
  by_cases hfrom : key.name = "~from"
  · exact ⟨"2", "1", fun _ => by decide, .offset hfrom (by decide)⟩
  by_cases hafter : key.name = "~search_after"
  · exact ⟨"a", "b", by simp [hafter], .searchAfter hafter (by decide)⟩
  by_cases htotal : key.name = "~track_total_hits"
  · exact ⟨"true", "false", by simp [htotal], .trackTotal htotal (by decide)⟩
  have hnumber : ¬key.name ∈ ["~size", "~from"] := by simp [hsize, hfrom]
  have hpaging : ¬key.name ∈ pagingKeys := by simp [pagingKeys, hsize, hfrom, hafter, htotal]
  obtain ⟨name, negated⟩ := key
  by_cases hname : name = "~name"
  · subst hname
    obtain rfl : negated = false := by simpa [Key.Forgiving] using hkey
    refine ⟨"a", "b", fun h => absurd h hnumber, .asks ⟨"a", "", [], []⟩ ?_ fun h => ?_⟩
    · exact matched_a
    · exact not_matched_b h.2
  by_cases htag : name = "~tag"
  · subst htag
    obtain rfl : negated = false := by simpa [Key.Forgiving] using hkey
    refine ⟨"a", "b", fun h => absurd h hnumber, .asks ⟨"", "", [⟨"a", ""⟩], []⟩ ?_ fun h => ?_⟩
    · exact ⟨⟨"a", ""⟩, List.mem_singleton_self _, matched_a⟩
    · obtain ⟨tag, htag, hmatched⟩ := h.2
      rw [List.mem_singleton.mp htag] at hmatched
      exact not_matched_b hmatched
  simp only at hpaging
  cases negated with
  | false =>
    refine ⟨"a", "b", fun h => absurd h hnumber,
      .asks ⟨"", "", [], [⟨name, "", "a"⟩]⟩ ?_ fun h => ?_⟩
    · simp [Asks, hname, htag, hpaging, SameFolded, matched_a]
    · have hasks := h.2
      simp [Asks, hname, htag, hpaging, SameFolded, not_matched_b] at hasks
  | true =>
    -- Without the property, a star asks for no more, and any other value for the property.
    have hstar : MatchesAll ["*", "b"] := any_matchesEverything_iff.mp (by decide)
    have hb : ¬MatchesAll ["b"] := mt any_matchesEverything_iff.mpr (by decide)
    refine ⟨"*", "b", fun h => absurd h hnumber, .asks ⟨"", "", [], []⟩ ?_ fun h => ?_⟩
    · simp [Asks, hname, htag, hpaging, hstar]
    · have hasks := h.2
      simp [Asks, hname, htag, hpaging, hb] at hasks

/-- A key may be spelled in any ways exactly if it is forgiving. -/
theorem forgiving_iff (raw : String) :
    (∀ pairs, (∀ pair ∈ pairs, Key.ofText pair.1 = Key.ofText raw) →
      Agree pairs (respelled pairs)) ↔ (Key.ofText raw).Forgiving := by
  constructor
  · intro h
    by_contra hkey
    obtain ⟨value, value', hnumber, hparted⟩ := exists_parted hkey
    have hname : (Key.ofText raw).name ≠ "" := fun hempty => hkey (.inl hempty)
    exact hparted.not_agree ⟨hname, hnumber⟩ (h _ ofText_of_mem_spelledTwice)
  · intro hkey pairs hpairs
    refine agree_respelled fun pair hpair hnot => ?_
    rw [hpairs pair hpair] at hnot
    exact absurd hkey hnot

/-- What is given under two spellings of one key stays apart. All pairs compile as they do in
their usual spelling, or fail to ; under every raw key one of the values given under it is asked
for, and the last spelling of a paging key decides on the page. So the values of a key are
collected, and the query is that of the usual spelling, if every key that is not forgiving is
spelled in one way ; and for each key that is not forgiving, some pairs that spell it in two ways
ask for something else. -/
theorem spelling_matters (pairs : List (String × String)) (raw : String) :
    ((∃ query, compile (.ofPairs (respelled pairs)) = .ok query) ↔
        ∃ query, compile (.ofPairs pairs) = .ok query) ∧
      (∀ query, compile (.ofPairs pairs) = .ok query →
        (∀ c : Channel, query.predicate.holds (toDocument c) = true ↔
          ∀ pair ∈ pairs, Asks (Key.ofText pair.1) (valuesUnder pairs pair.1) c) ∧
        Paged (ofPairs pairs).entries query) ∧
      (SpelledOnce pairs →
        Agree pairs (respelled pairs) ∧
          (PagedOnce pairs → ∀ query, compile (.ofPairs pairs) = .ok query →
            Collected pairs query)) ∧
      ((∀ pairs', (∀ pair ∈ pairs', Key.ofText pair.1 = Key.ofText raw) →
        Agree pairs' (respelled pairs')) ↔ (Key.ofText raw).Forgiving) := by
  refine ⟨compiles_respelled_iff pairs, fun query h => ⟨holds_ofPairs_iff h, paged_compile h⟩,
    fun once => ⟨agree_respelled once, fun paging query h => collected_compile once paging h⟩,
    forgiving_iff raw⟩

/-- Two excluded names in two spellings, a property with two values, and two page sizes. -/
def cellPairs : List (String × String) :=
  [("~name!", "old*"), ("Cell", "1"), ("~size", "5"), (" ~name !=", "x*"), ("Cell", "2"),
    ("~size", "9")]

theorem cellPairs_collected :
    SpelledOnce cellPairs ∧ PagedOnce cellPairs ∧ Agree cellPairs (respelled cellPairs) ∧
      ∃ query, compile (.ofPairs cellPairs) = .ok query ∧ Collected cellPairs query ∧
        query.size = some 9 := by
  have once : SpelledOnce cellPairs := by decide
  have paging : PagedOnce cellPairs := by decide
  obtain ⟨-, -, hmatters, -⟩ := spelling_matters cellPairs "~name!"
  obtain ⟨hagree, hcollected⟩ := hmatters once
  exact ⟨once, paging, hagree, _, rfl, hcollected paging _ rfl, by decide⟩

/-- Two names, one of them after a spelling with a blank. -/
def nameTwice : List (String × String) :=
  [("~name", "A"), ("~name ", "B")]

/-- A channel that has one of the names is not found, but in the usual spelling it is. -/
theorem nameTwice_parts_values :
    ∃ query query', compile (.ofPairs nameTwice) = .ok query ∧
      compile (.ofPairs (respelled nameTwice)) = .ok query' ∧
      query.predicate.holds (toDocument (⟨"A", "o", [], []⟩ : Channel)) = false ∧
      query'.predicate.holds (toDocument (⟨"A", "o", [], []⟩ : Channel)) = true ∧
      ¬Agree nameTwice (respelled nameTwice) := by
  have hfound : ∀ query query', compile (.ofPairs nameTwice) = .ok query →
      compile (.ofPairs (respelled nameTwice)) = .ok query' →
      query.predicate.holds (toDocument (⟨"A", "o", [], []⟩ : Channel)) = false →
      query'.predicate.holds (toDocument (⟨"A", "o", [], []⟩ : Channel)) = true →
      ¬Agree nameTwice (respelled nameTwice) := by
    intro query query' hquery hquery' hnot hholds hagree
    have hsame := (hagree.same query query' hquery hquery').holds_iff ⟨"A", "o", [], []⟩
    rw [hnot, hholds] at hsame
    exact absurd (hsame.mp rfl) (by decide)
  exact ⟨_, _, rfl, rfl, by decide, by decide, hfound _ _ rfl rfl (by decide) (by decide)⟩

end Query

end ChannelDirectory
