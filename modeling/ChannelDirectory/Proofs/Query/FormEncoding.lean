import ChannelDirectory.Proofs.Query.Collecting
import ChannelDirectory.Proofs.Text.Utf8

/-!
# Query texts read back

`FormEncoding.encode` writes pairs the careful way : every byte of every key and value is a percent
escape, keys and values are joined by `=`, and pairs by `&`. Other writers leave letters and digits
bare, write a blank as `+`, or take lower-case digits in their escapes. `FormEncoding.Writes` has
all of them, character by character.

In none of these texts does a key or a value contain a separator, a blank or a question mark
(`Writes.all_isMark`), so neither the cutting nor the trimming touches what is encoded, and the
characters of a key or value are found again (`Writes.decode_eq`). So parameters are parsed to what
was encoded (`QueryParams.parse_of_writes`).
-/

namespace ChannelDirectory

open Text

namespace Text.FormEncoding

/-! ## Encoding -/

/-- A byte as a percent escape with upper-case digits. -/
def escape (b : UInt8) : List Char :=
  ['%', (b.toNat / 16).digitChar.toUpper, (b.toNat % 16).digitChar.toUpper]

/-- A text with every byte of it escaped. -/
def escapeAll (text : String) : List Char :=
  (Utf8.encode text.toList).flatMap escape

/-- Pairs with every byte of them escaped. -/
def encode (pairs : List (String × String)) : List Char :=
  ['&'].intercalate (pairs.map fun pair => escapeAll pair.1 ++ '=' :: escapeAll pair.2)

/-- The character is the digit, in either case. -/
def IsDigit (n : Nat) (c : Char) : Prop :=
  c = n.digitChar ∨ c = n.digitChar.toUpper

/-- The text is a sequence of percent escapes of the bytes. -/
inductive Escapes : List UInt8 → List Char → Prop where
  | nil : Escapes [] []
  | cons {b : UInt8} {bytes : List UInt8} {high low : Char} {text : List Char} :
      IsDigit (b.toNat / 16) high → IsDigit (b.toNat % 16) low → Escapes bytes text →
        Escapes (b :: bytes) ('%' :: high :: low :: text)

/-- The text encodes a key or a value : each character is escaped, is a blank and written as `+`,
or is a letter or digit and bare. -/
inductive Writes : List Char → List Char → Prop where
  | nil : Writes [] []
  | escaped {c : Char} {cs piece text : List Char} :
      Escapes (String.utf8EncodeChar c) piece → Writes cs text → Writes (c :: cs) (piece ++ text)
  | plus {cs text : List Char} : Writes cs text → Writes (' ' :: cs) ('+' :: text)
  | bare {c : Char} {cs text : List Char} :
      c.isAlphanum = true → Writes cs text → Writes (c :: cs) (c :: text)

/-- The text encodes a key and its value. -/
def WritesPair (pair : String × String) (text : List Char) : Prop :=
  ∃ key value, Writes pair.1.toList key ∧ Writes pair.2.toList value ∧ text = key ++ '=' :: value

/-- The text encodes pairs, joined by `&`. -/
def WritesPairs (pairs : List (String × String)) (text : List Char) : Prop :=
  ∃ pieces, List.Forall₂ WritesPair pairs pieces ∧ text = ['&'].intercalate pieces

theorem escapes_flatMap_escape (bytes : List UInt8) : Escapes bytes (bytes.flatMap escape) := by
  induction bytes with
  | nil => exact .nil
  | cons b bytes ih => exact .cons (Or.inr rfl) (Or.inr rfl) ih

theorem writes_escapeAll (text : String) : Writes text.toList (escapeAll text) := by
  rw [escapeAll, Utf8.encode]
  induction text.toList with
  | nil => exact .nil
  | cons c cs ih =>
    rw [List.flatMap_cons, List.flatMap_append]
    exact .escaped (escapes_flatMap_escape _) ih

/-- Escaping every byte is one way to write pairs. -/
theorem writesPairs_encode (pairs : List (String × String)) : WritesPairs pairs (encode pairs) := by
  refine ⟨_, ?_, rfl⟩
  rw [List.forall₂_map_right_iff]
  exact List.forall₂_same.mpr fun pair _ =>
    ⟨_, _, writes_escapeAll pair.1, writes_escapeAll pair.2, rfl⟩

/-! ## The characters of an encoded text -/

/-- A character that an encoded key or value may contain. -/
def isMark (c : Char) : Bool :=
  c.isAlphanum || c == '%' || c == '+'

theorem isAlphanum_iff {c : Char} : c.isAlphanum = true ↔
    (0x41 ≤ c.toNat ∧ c.toNat ≤ 0x5A) ∨ (0x61 ≤ c.toNat ∧ c.toNat ≤ 0x7A) ∨
      (0x30 ≤ c.toNat ∧ c.toNat ≤ 0x39) := by
  change (decide (c.val ≥ 0x41 ∧ c.val ≤ 0x5A) || decide (c.val ≥ 0x61) && decide (c.val ≤ 0x7A) ||
    decide (c.val ≥ 0x30) && decide (c.val ≤ 0x39)) = true ↔ _
  simp only [Bool.or_eq_true, Bool.and_eq_true, decide_eq_true_eq, or_assoc]
  exact Iff.rfl

theorem isDigit_iff_of_lt {n : Nat} (h : n < 16) {c : Char} (hc : IsDigit n c) :
    hexValue c = some n ∧ c.isAlphanum = true := by
  have hall : ∀ n < 16, (hexValue n.digitChar = some n ∧ n.digitChar.isAlphanum = true) ∧
      hexValue n.digitChar.toUpper = some n ∧ n.digitChar.toUpper.isAlphanum = true := by decide
  rcases hc with rfl | rfl
  · exact (hall n h).1
  · exact (hall n h).2

theorem isMark_of_isAlphanum {c : Char} (h : c.isAlphanum = true) : isMark c = true := by
  rw [isMark, h]
  rfl

/-- What an encoded key or value may contain separates nothing and is not trimmed. -/
theorem isMark_apart {c : Char} (h : isMark c = true) :
    (c == '&') = false ∧ (c == '=') = false ∧ (c == '?') = false ∧ isBlank c = false := by
  rw [isMark, Bool.or_eq_true, Bool.or_eq_true, isAlphanum_iff, beq_iff_eq, beq_iff_eq] at h
  rcases h with (hrange | rfl) | rfl
  · refine ⟨?_, ?_, ?_, ?_⟩
    · exact beq_false_of_ne fun heq => by rw [heq] at hrange; revert hrange; decide
    · exact beq_false_of_ne fun heq => by rw [heq] at hrange; revert hrange; decide
    · exact beq_false_of_ne fun heq => by rw [heq] at hrange; revert hrange; decide
    · simp only [isBlank, Bool.or_eq_false_iff, Bool.and_eq_false_iff, decide_eq_false_iff_not,
        beq_eq_false_iff_ne]
      omega
  · decide
  · decide

theorem Escapes.all_isMark {bytes : List UInt8} {text : List Char} (h : Escapes bytes text) :
    ∀ c ∈ text, isMark c = true := by
  induction h with
  | nil => exact List.forall_mem_nil _
  | @cons b bytes high low text hhigh hlow _ ih =>
    have hb := b.toNat_lt
    have hhigh' := (isDigit_iff_of_lt (by omega) hhigh).2
    have hlow' := (isDigit_iff_of_lt (Nat.mod_lt _ (by decide)) hlow).2
    exact List.forall_mem_cons.mpr ⟨rfl, List.forall_mem_cons.mpr
      ⟨isMark_of_isAlphanum hhigh', List.forall_mem_cons.mpr ⟨isMark_of_isAlphanum hlow', ih⟩⟩⟩

theorem Writes.all_isMark {cs text : List Char} (h : Writes cs text) :
    ∀ c ∈ text, isMark c = true := by
  induction h with
  | nil => exact List.forall_mem_nil _
  | escaped hpiece _ ih => exact List.forall_mem_append.mpr ⟨hpiece.all_isMark, ih⟩
  | plus _ ih => exact List.forall_mem_cons.mpr ⟨rfl, ih⟩
  | bare hc _ ih => exact List.forall_mem_cons.mpr ⟨isMark_of_isAlphanum hc, ih⟩

/-! ## Decoding -/

theorem bytes_append_of_escapes {bs : List UInt8} {piece : List Char} (h : Escapes bs piece)
    (text : List Char) : bytes (piece ++ text) = bs ++ bytes text := by
  induction h with
  | nil => rfl
  | @cons b bs high low piece hhigh hlow _ ih =>
    have hb := b.toNat_lt
    have hbyte : b.toNat / 16 * 16 + b.toNat % 16 = b.toNat := Nat.div_add_mod' _ _
    rw [List.cons_append, List.cons_append, List.cons_append, bytes,
      (isDigit_iff_of_lt (by omega) hhigh).1,
      (isDigit_iff_of_lt (Nat.mod_lt _ (by decide)) hlow).1]
    simp only [hbyte, UInt8.ofNat_toNat, ih, List.cons_append]

/-- The bytes of an encoded key or value are those of its characters. -/
theorem Writes.bytes_eq {cs text : List Char} (h : Writes cs text) :
    bytes text = Utf8.encode cs := by
  induction h with
  | nil => rfl
  | escaped hpiece _ ih => rw [bytes_append_of_escapes hpiece, ih, Utf8.encode, Utf8.encode,
      List.flatMap_cons]
  | plus _ ih =>
    rw [bytes, ih]
    rfl
  | @bare c cs text hc _ ih =>
    have hplus : c ≠ '+' := by rintro rfl; revert hc; decide
    have hpercent : c ≠ '%' := by rintro rfl; revert hc; decide
    rw [bytes, ih, Utf8.encode, Utf8.encode, List.flatMap_cons]
    · exact hplus
    · exact fun _ _ _ heq => absurd heq hpercent

theorem Writes.decode_eq {text : String} {written : List Char} (h : Writes text.toList written) :
    decode written = text := by
  rw [decode, h.bytes_eq, Utf8.decode_encode, String.ofList_toList]

theorem WritesPair.pair_eq {p : String × String} {piece : List Char} (h : WritesPair p piece) :
    pair piece = p := by
  obtain ⟨key, value, hkey, hvalue, rfl⟩ := h
  have hcut : cutAt (· == '=') (key ++ '=' :: value) = some (key, value) :=
    cutAt_append_cons value (fun d hd => (isMark_apart (hkey.all_isMark d hd)).2.1) rfl
  rw [pair, hcut]
  simp only [hkey.decode_eq, hvalue.decode_eq]

/-! ## Pairs -/

/-- An encoded pair is not empty, nor cut at `&`. -/
theorem WritesPair.isPiece {p : String × String} {piece : List Char} (h : WritesPair p piece) :
    (!piece.isEmpty) = true ∧ ∀ c ∈ piece, (c == '&') = false := by
  obtain ⟨key, value, hkey, hvalue, rfl⟩ := h
  refine ⟨by simp, List.forall_mem_append.mpr ⟨fun c hc => ?_, List.forall_mem_cons.mpr
    ⟨rfl, fun c hc => ?_⟩⟩⟩
  · exact (isMark_apart (hkey.all_isMark c hc)).1
  · exact (isMark_apart (hvalue.all_isMark c hc)).1

/-- Neither a blank nor a question mark is in an encoded pair. -/
theorem WritesPair.isBare {p : String × String} {piece : List Char} (h : WritesPair p piece) :
    ∀ c ∈ piece, (c == '?') = false ∧ isBlank c = false := by
  obtain ⟨key, value, hkey, hvalue, rfl⟩ := h
  refine List.forall_mem_append.mpr ⟨fun c hc => ?_, List.forall_mem_cons.mpr
    ⟨by decide, fun c hc => ?_⟩⟩
  · exact (isMark_apart (hkey.all_isMark c hc)).2.2
  · exact (isMark_apart (hvalue.all_isMark c hc)).2.2

/-- Joined pieces are cut where they were joined. -/
theorem pieces_intercalate {sep : Char → Bool} {c : Char} (hc : sep c = true)
    {parts : List (List Char)} (hne : parts ≠ []) (h : ∀ part ∈ parts, ∀ d ∈ part, sep d = false) :
    pieces sep ([c].intercalate parts) = parts := by
  induction parts with
  | nil => exact absurd rfl hne
  | cons part parts ih =>
    obtain ⟨hpart, hparts⟩ := List.forall_mem_cons.mp h
    cases parts with
    | nil => rw [List.intercalate_singleton, pieces_of_all_not hpart]
    | cons next parts =>
      rw [List.intercalate_cons_cons, List.append_assoc, List.singleton_append,
        pieces_append_cons _ hpart hc, ih (List.cons_ne_nil _ _) hparts]

theorem exists_pair_of_mem {ps : List (String × String)} {parts : List (List Char)}
    (h : List.Forall₂ WritesPair ps parts) : ∀ part ∈ parts, ∃ p, WritesPair p part := by
  induction h with
  | nil => exact List.forall_mem_nil _
  | cons hpart _ ih => exact List.forall_mem_cons.mpr ⟨⟨_, hpart⟩, ih⟩

/-- Pairs are read back from any text that encodes them. -/
theorem pairs_eq_of_writesPairs {ps : List (String × String)} {text : List Char}
    (h : WritesPairs ps text) : pairs text = ps := by
  obtain ⟨parts, hparts, rfl⟩ := h
  have hmap : parts.map pair = ps := by
    induction hparts with
    | nil => rfl
    | cons hpart _ ih => rw [List.map_cons, hpart.pair_eq, ih]
  have hpiece : ∀ part ∈ parts, (!part.isEmpty) = true ∧ ∀ c ∈ part, (c == '&') = false :=
    fun part hpart => (exists_pair_of_mem hparts part hpart).elim fun _ hp => hp.isPiece
  rw [pairs]
  by_cases hnil : parts = []
  · subst hnil
    exact hmap
  · rw [pieces_intercalate rfl hnil fun part hpart => (hpiece part hpart).2,
      List.filter_eq_self.mpr fun part hpart => (hpiece part hpart).1, hmap]

/-- An encoded text is neither trimmed nor does it begin with a question mark. -/
theorem isBare_of_writesPairs {ps : List (String × String)} {text : List Char}
    (h : WritesPairs ps text) : ∀ c ∈ text, (c == '?') = false ∧ isBlank c = false := by
  obtain ⟨parts, hparts, rfl⟩ := h
  have hall := exists_pair_of_mem hparts
  clear hparts
  induction parts with
  | nil => exact List.forall_mem_nil _
  | cons part parts ih =>
    obtain ⟨⟨p, hp⟩, hrest⟩ := List.forall_mem_cons.mp hall
    cases parts with
    | nil =>
      rw [List.intercalate_singleton]
      exact hp.isBare
    | cons next parts =>
      rw [List.intercalate_cons_cons, List.append_assoc]
      exact List.forall_mem_append.mpr
        ⟨hp.isBare, List.forall_mem_cons.mpr ⟨by decide, ih hrest⟩⟩

end Text.FormEncoding

open Text.FormEncoding

namespace QueryParams

theorem trimChars_of_no_blank {cs : List Char} (h : ∀ c ∈ cs, isBlank c = false) :
    trimChars cs = cs := by
  have hkeep : ∀ ds : List Char, (∀ c ∈ ds, isBlank c = false) → ds.dropWhile isBlank = ds := by
    intro ds hds
    cases ds with
    | nil => rfl
    | cons d ds => rw [List.dropWhile_cons, if_neg (by simp [hds d List.mem_cons_self])]
  rw [trimChars, dropBlanksRight, hkeep cs h, hkeep _ fun c hc => h c (List.mem_reverse.mp hc),
    List.reverse_reverse]

/-- Question marks in front of an encoded text do not count. -/
theorem parse_of_writesPairs {pairs : List (String × String)} {text : List Char}
    (h : WritesPairs pairs text) (marks : Nat) :
    parse (String.ofList (List.replicate marks '?' ++ text)) = ofPairs pairs := by
  have hbare := isBare_of_writesPairs h
  have hdrop : text.dropWhile (· == '?') = text := by
    cases text with
    | nil => rfl
    | cons c text => rw [List.dropWhile_cons, if_neg (by simp [(hbare c List.mem_cons_self).1])]
  rw [parse, String.toList_ofList, trimChars_of_no_blank, List.dropWhile_append_of_pos, hdrop,
    pairs_eq_of_writesPairs h]
  · exact fun c hc => beq_iff_eq.mpr (List.eq_of_mem_replicate hc)
  · refine List.forall_mem_append.mpr ⟨fun c hc => ?_, fun c hc => (hbare c hc).2⟩
    rw [List.eq_of_mem_replicate hc]
    decide

/-- Parsing undoes encoding. The parameters of an encoded text are those that its pairs add up to,
with all values of a key under its first occurrence, in order. So it is with every byte escaped,
and just as well with any mixture of escapes in upper-case or lower-case digits, `+` for blanks,
and bare letters and digits, with any number of question marks in front. -/
theorem parse_encoded (pairs : List (String × String)) :
    parse (String.ofList (encode pairs)) = ofPairs pairs ∧
      (∀ text, WritesPairs pairs text → ∀ marks,
        parse (String.ofList (List.replicate marks '?' ++ text)) = ofPairs pairs) ∧
      (ofPairs pairs).entries = (pairs.map Prod.fst).eraseDups.map fun key =>
        (key, (pairs.filter fun pair => pair.1 = key).map Prod.snd) := by
  refine ⟨?_, fun text h marks => parse_of_writesPairs h marks, entries_ofPairs pairs⟩
  exact parse_of_writesPairs (writesPairs_encode pairs) 0

/-- Pairs with a key that is given twice, an empty one, and characters that need an escape. -/
def mixedPairs : List (String × String) :=
  [("k", "é "), ("", ""), ("k", "&")]

theorem mixedPairs_parsed :
    parse "??k=%c3%A9+&=&%6b=%26" = ⟨[("k", ["é ", "&"]), ("", [""])]⟩ := by
  have he : Escapes (String.utf8EncodeChar 'é') "%c3%A9".toList :=
    .cons (Or.inl rfl) (Or.inl rfl) (.cons (Or.inr rfl) (Or.inl rfl) .nil)
  have hk : Escapes (String.utf8EncodeChar 'k') "%6b".toList := .cons (Or.inl rfl) (Or.inl rfl) .nil
  have hamp : Escapes (String.utf8EncodeChar '&') "%26".toList :=
    .cons (Or.inl rfl) (Or.inl rfl) .nil
  have hvalue : Writes "é ".toList "%c3%A9+".toList := .escaped he (.plus .nil)
  have hkey : Writes "k".toList "%6b".toList := .escaped hk .nil
  have hvalue' : Writes "&".toList "%26".toList := .escaped hamp .nil
  have hpairs : WritesPairs mixedPairs "k=%c3%A9+&=&%6b=%26".toList := by
    refine ⟨["k=%c3%A9+".toList, "=".toList, "%6b=%26".toList], ?_, rfl⟩
    refine .cons ⟨_, _, .bare (by decide) .nil, hvalue, rfl⟩ (.cons ⟨_, _, .nil, .nil, rfl⟩ ?_)
    exact .cons ⟨_, _, hkey, hvalue', rfl⟩ .nil
  have hparsed := (parse_encoded mixedPairs).2.1 _ hpairs 2
  exact hparsed

end QueryParams

end ChannelDirectory
