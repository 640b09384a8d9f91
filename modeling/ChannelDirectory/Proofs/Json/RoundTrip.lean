import ChannelDirectory.Proofs.Json.Legible
import ChannelDirectory.Proofs.Json.Strings

/-!
# Printed values read back

A printable value that is printed over several lines is read back as itself (`Json.read_pretty`),
at any level of indentation and in front of any text that ends a number
(`Json.readValue_prettyAt`). The readers pass over blanks, so the line ends and the indentation that
`pretty` writes between the parts are nothing to them (`Json.readValue_congr`,
`Json.skipSpace_newline`).

The proof is an induction on the value. Two readers take lists, of items and of members; for each
the induction on the list is a lemma of its own, which is given that the parts are read back
(`Json.readItems_printed`, `Json.readMoreMembers_printed`).
-/

namespace ChannelDirectory.Json

/-! ## Blanks -/

theorem skipSpace_cons_of_visible {c : Char} (h : isSpace c = false) (cs : List Char) :
    skipSpace (c :: cs) = c :: cs := by
  simp [skipSpace, h]

theorem skipSpace_blank (cs : List Char) : skipSpace (' ' :: cs) = skipSpace cs :=
  rfl

theorem skipSpace_append {blank : List Char} (h : ∀ c ∈ blank, isSpace c = true) (cs : List Char) :
    skipSpace (blank ++ cs) = skipSpace cs :=
  List.dropWhile_append_of_pos h

theorem newline_toList (level : Nat) :
    (newline level).toList = '\n' :: List.replicate (2 * level) ' ' := by
  rw [newline, String.toList_ofList]

theorem newline_length_pos (level : Nat) : 0 < (newline level).toList.length := by
  rw [newline_toList]
  exact Nat.succ_pos _

theorem newline_isSpace (level : Nat) : ∀ c ∈ (newline level).toList, isSpace c = true := by
  intro c hc
  rw [newline_toList, List.mem_cons, List.mem_replicate] at hc
  rcases hc with rfl | ⟨-, rfl⟩ <;> rfl

theorem skipSpace_newline (level : Nat) (cs : List Char) :
    skipSpace ((newline level).toList ++ cs) = skipSpace cs :=
  skipSpace_append (newline_isSpace level) cs

/-- A value is read from its first character that is not blank. -/
theorem readValue_congr {fuel depth : Nat} {cs cs' : List Char} (h : skipSpace cs = skipSpace cs') :
    readValue fuel depth cs = readValue fuel depth cs' := by
  cases fuel with
  | zero => rfl
  | succ fuel => rw [readValue, readValue, h]

/-- Blanks in front of the items do not matter. -/
theorem readItems_congr {fuel depth : Nat} {cs cs' : List Char} (h : skipSpace cs = skipSpace cs') :
    readItems fuel depth cs = readItems fuel depth cs' := by
  cases fuel with
  | zero => rfl
  | succ fuel => rw [readItems, readItems, readValue_congr h]

theorem readName_congr {cs cs' : List Char} (h : skipSpace cs = skipSpace cs') :
    readName cs = readName cs' := by
  rw [readName, readName, h]

/-- Blanks in front of the members do not matter. -/
theorem readMoreMembers_congr {fuel depth : Nat} {cs cs' : List Char}
    (h : skipSpace cs = skipSpace cs') :
    readMoreMembers fuel depth cs = readMoreMembers fuel depth cs' := by
  cases fuel with
  | zero => rfl
  | succ fuel => rw [readMoreMembers, readMoreMembers, readName_congr h]

/-! ## Parts between brackets -/

/-- The parts with a comma and a line end between every two. -/
def lines (level : Nat) (parts : List String) : List Char :=
  (join ("," ++ newline level) parts).toList

theorem lines_singleton (level : Nat) (part : String) : lines level [part] = part.toList :=
  rfl

theorem lines_cons_cons (level : Nat) (part next : String) (parts : List String) :
    lines level (part :: next :: parts) =
      part.toList ++ ',' :: ((newline level).toList ++ lines level (next :: parts)) := by
  simp [lines, join]

theorem exists_lines_eq_cons {part : String} {c : Char} {cs : List Char} (h : part.toList = c :: cs)
    (level : Nat) (parts : List String) : ∃ cs', lines level (part :: parts) = c :: cs' := by
  cases parts with
  | nil => exact ⟨cs, by rw [lines_singleton, h]⟩
  | cons next parts => exact ⟨_, by rw [lines_cons_cons, h, List.cons_append]⟩

/-- What stands between the opening bracket of a block and the text after it. -/
def inside (closing : Char) (level : Nat) (parts : List String) : List Char :=
  if parts.isEmpty then [closing]
  else (newline (level + 1)).toList ++ (lines (level + 1) parts ++
    ((newline level).toList ++ [closing]))

theorem inside_nil (closing : Char) (level : Nat) : inside closing level [] = [closing] :=
  rfl

theorem inside_cons (closing : Char) (level : Nat) (part : String) (parts : List String) :
    inside closing level (part :: parts) =
      (newline (level + 1)).toList ++ (lines (level + 1) (part :: parts) ++
        ((newline level).toList ++ [closing])) :=
  rfl

theorem inside_length_pos (closing : Char) (level : Nat) (parts : List String) :
    0 < (inside closing level parts).length := by
  cases parts with
  | nil => exact Nat.one_pos
  | cons part parts =>
    rw [inside_cons]
    simp only [List.length_append, List.length_singleton]
    omega

/-- The closing bracket of a block comes after a line end. -/
theorem skipSpace_closing (closing : Char) (h : isSpace closing = false) (level : Nat)
    (rest : List Char) :
    skipSpace ((newline level).toList ++ closing :: rest) = closing :: rest := by
  rw [skipSpace_newline, skipSpace_cons_of_visible h]

theorem block_toList (opening closing : Char) (level : Nat) (parts : List String) :
    (block (String.singleton opening) (String.singleton closing) level parts).toList =
      opening :: inside closing level parts := by
  rw [block, inside]
  split <;> simp [lines]

/-- A line end, and a bracket after it, end a number. -/
theorem endsNumber_newline (level : Nat) (rest : List Char) :
    EndsNumber ((newline level).toList ++ rest) := by
  rw [newline_toList]
  rintro c hc
  obtain rfl : '\n' = c := by simpa using hc
  decide

theorem endsNumber_cons {c : Char} (h : digit? c = none ∧ c ≠ '.' ∧ c ≠ 'e' ∧ c ≠ 'E')
    (rest : List Char) : EndsNumber (c :: rest) := by
  rintro c' hc
  obtain rfl : c = c' := by simpa using hc
  exact h

/-- A text is read back as a value, whatever comes after it, with the fuel that its length gives. -/
def ReadsAs (depth : Nat) (text : String) (v : Json) : Prop :=
  ∀ fuel rest, 2 * text.toList.length ≤ fuel → EndsNumber rest →
    readValue fuel depth (text.toList ++ rest) = some (v, rest)

variable {depth : Nat}

/-- Items that are printed one below the other are read, if each of them is. -/
theorem readItems_printed {level : Nat} {items : List Json} {tail rest : List Char}
    (hne : items ≠ [])
    (hitems : ∀ item ∈ items, ReadsAs depth (prettyAt level item) item)
    (htail : skipSpace tail = ']' :: rest) (hends : EndsNumber tail) (fuel : Nat)
    (hfuel : 2 * (lines level (prettyItems level items)).length + 1 ≤ fuel) :
    readItems fuel depth (lines level (prettyItems level items) ++ tail) = some (items, rest) := by
  induction items generalizing fuel with
  | nil => exact absurd rfl hne
  | cons item items ih =>
    obtain ⟨fuel, rfl⟩ := Nat.exists_eq_add_one_of_ne_zero (by omega : fuel ≠ 0)
    obtain ⟨hitem, hitems⟩ := List.forall_mem_cons.mp hitems
    cases items with
    | nil =>
      rw [prettyItems, prettyItems, lines_singleton] at hfuel ⊢
      rw [readItems, hitem _ _ (by omega) hends]
      simp only [htail]
    | cons next items =>
      rw [prettyItems, prettyItems, lines_cons_cons, ← prettyItems] at hfuel ⊢
      simp only [List.length_append, List.length_cons] at hfuel
      rw [List.append_assoc, List.cons_append, readItems,
        hitem _ _ (by omega) (endsNumber_cons (by decide) _)]
      simp only [skipSpace_cons_of_visible (c := ',') rfl]
      rw [List.append_assoc, readItems_congr (skipSpace_newline _ _),
        ih (by simp) hitems fuel (by omega)]
      rfl

/-- A printed member name is read. -/
theorem readName_printed (name : String) (rest : List Char) :
    readName ((printString name ++ ": ").toList ++ rest) = some (name, ' ' :: rest) := by
  have htext : (printString name ++ ": ").toList ++ rest =
      '"' :: (name.toList.flatMap printChar ++ '"' :: ':' :: ' ' :: rest) := by
    simp [printString_toList]
  rw [htext, readName, skipSpace_cons_of_visible rfl]
  simp only [readString_printed, skipSpace_cons_of_visible (c := ':') rfl]

/-- Members that are printed one below the other are read, if each value is. -/
theorem readMoreMembers_printed {level : Nat} {members : List (String × Json)}
    {tail rest : List Char} (hne : members ≠ [])
    (hmembers : ∀ e ∈ members, ReadsAs depth (prettyAt level e.2) e.2)
    (htail : skipSpace tail = '}' :: rest) (hends : EndsNumber tail) (fuel : Nat)
    (hfuel : 2 * (lines level (prettyMembers level members)).length + 1 ≤ fuel) :
    readMoreMembers fuel depth (lines level (prettyMembers level members) ++ tail) =
      some (members, rest) := by
  induction members generalizing fuel with
  | nil => exact absurd rfl hne
  | cons e members ih =>
    obtain ⟨name, value⟩ := e
    obtain ⟨fuel, rfl⟩ := Nat.exists_eq_add_one_of_ne_zero (by omega : fuel ≠ 0)
    have hvalue : ReadsAs depth (prettyAt level value) value := hmembers _ List.mem_cons_self
    have hmembers := (List.forall_mem_cons.mp hmembers).2
    cases members with
    | nil =>
      rw [prettyMembers, prettyMembers, lines_singleton, String.toList_append] at hfuel ⊢
      rw [List.length_append] at hfuel
      rw [List.append_assoc, readMoreMembers, readName_printed]
      simp only
      rw [readValue_congr (skipSpace_blank _), hvalue _ _ (by omega) hends]
      simp only [htail]
    | cons next members =>
      obtain ⟨name', value'⟩ := next
      rw [prettyMembers, prettyMembers, lines_cons_cons, ← prettyMembers,
        String.toList_append] at hfuel ⊢
      simp only [List.length_append, List.length_cons] at hfuel
      rw [List.append_assoc, List.append_assoc, List.cons_append, readMoreMembers, readName_printed]
      simp only
      rw [readValue_congr (skipSpace_blank _),
        hvalue _ _ (by omega) (endsNumber_cons (by decide) _)]
      simp only [skipSpace_cons_of_visible (c := ',') rfl]
      rw [List.append_assoc, readMoreMembers_congr (skipSpace_newline _ _),
        ih (by simp) hmembers fuel (by omega)]
      rfl

/-! ## Values -/

theorem prettyAt_array_toList (level : Nat) (items : List Json) :
    (prettyAt level (.array items)).toList =
      '[' :: inside ']' level (prettyItems (level + 1) items) := by
  rw [prettyAt]
  exact block_toList '[' ']' _ _

theorem prettyAt_object_toList (level : Nat) (members : List (String × Json)) :
    (prettyAt level (.object members)).toList =
      '{' :: inside '}' level (prettyMembers (level + 1) members) := by
  rw [prettyAt]
  exact block_toList '{' '}' _ _

theorem isSpace_of_beginsNumber {c : Char} (h : BeginsNumber c) : isSpace c = false := by
  have hne := fun {x} => h.ne (x := x)
  simp [isSpace, hne (x := ' ') (by decide) (by decide), hne (x := '\n') (by decide) (by decide),
    hne (x := '\t') (by decide) (by decide), hne (x := '\r') (by decide) (by decide)]

/-- A text that begins with a sign or a digit is read as a number. -/
theorem readValue_number {c : Char} (h : BeginsNumber c) (fuel : Nat) (cs : List Char) :
    readValue (fuel + 1) depth (c :: cs) = readNumber (c :: cs) := by
  rw [readValue, skipSpace_cons_of_visible (isSpace_of_beginsNumber h)]
  split <;> first
    | exact absurd (List.cons.inj ‹_›).1 (h.ne (by decide) (by decide))
    | rfl

/-- The first character of a printed value is neither a blank nor a closing bracket. -/
theorem exists_prettyAt_eq_cons {v : Json} (hfree : DoubleFree v) (level : Nat) :
    ∃ c cs, (prettyAt level v).toList = c :: cs ∧ isSpace c = false ∧ c ≠ ']' := by
  cases hfree with
  | null => exact ⟨'n', _, by rw [prettyAt]; rfl, rfl, by decide⟩
  | bool value =>
    cases value with
    | false => exact ⟨'f', _, by rw [prettyAt]; rfl, rfl, by decide⟩
    | true => exact ⟨'t', _, by rw [prettyAt]; rfl, rfl, by decide⟩
  | integer n =>
    obtain ⟨c, cs, hlist, hc⟩ := exists_toString_eq_cons n
    exact ⟨c, cs, by rw [prettyAt, hlist], isSpace_of_beginsNumber hc,
      hc.ne (by decide) (by decide)⟩
  | string value => exact ⟨'"', _, by rw [prettyAt, printString_toList], rfl, by decide⟩
  | array _ => exact ⟨'[', _, prettyAt_array_toList level _, rfl, by decide⟩
  | object _ => exact ⟨'{', _, prettyAt_object_toList level _, rfl, by decide⟩

/-- A text is read back if one step of the reader does it. -/
theorem readsAs_of_step {text : String} {v : Json} (hne : text.toList ≠ [])
    (hstep : ∀ fuel rest, EndsNumber rest →
      readValue (fuel + 1) depth (text.toList ++ rest) = some (v, rest)) :
    ReadsAs depth text v := by
  intro fuel rest hfuel hends
  have hpos := List.length_pos_iff.mpr hne
  obtain ⟨fuel, rfl⟩ := Nat.exists_eq_add_one_of_ne_zero (by omega : fuel ≠ 0)
  exact hstep fuel rest hends

theorem readsAs_null : ReadsAs depth "null" .null :=
  readsAs_of_step (by decide) fun _ _ _ => rfl

theorem readsAs_true : ReadsAs depth "true" (.bool true) :=
  readsAs_of_step (by decide) fun _ _ _ => rfl

theorem readsAs_false : ReadsAs depth "false" (.bool false) :=
  readsAs_of_step (by decide) fun _ _ _ => rfl

/-- A printed number is read as this number, if it fits. -/
theorem readsAs_integer {n : Int} (hfits : Fits n) : ReadsAs depth (toString n) (.integer n) := by
  obtain ⟨c, cs, hlist, hc⟩ := exists_toString_eq_cons n
  refine readsAs_of_step (by rw [hlist]; exact List.cons_ne_nil c cs) fun fuel rest hends => ?_
  have hread := readNumber_printed hfits hends
  rw [hlist, List.cons_append] at hread ⊢
  rw [readValue_number hc, hread]

/-- A printed string is read as this string. -/
theorem readsAs_string (s : String) : ReadsAs depth (printString s) (.string s) := by
  refine readsAs_of_step (by rw [printString_toList]; exact List.cons_ne_nil _ _)
    fun fuel rest _ => ?_
  rw [printString_toList, List.cons_append, readValue, skipSpace_cons_of_visible rfl]
  simp only
  rw [List.append_assoc, List.singleton_append, readString_printed]
  rfl

/-- What stands after the opening brace of a printed object is read as its members. -/
theorem readMembers_printed {level : Nat} {members : List (String × Json)}
    (hmembers : ∀ e ∈ members, ReadsAs depth (prettyAt (level + 1) e.2) e.2) {fuel : Nat}
    (hfuel : 2 * (inside '}' level (prettyMembers (level + 1) members)).length ≤ fuel + 1)
    (rest : List Char) :
    readMembers fuel depth (inside '}' level (prettyMembers (level + 1) members) ++ rest) =
      some (members, rest) := by
  have hpos := inside_length_pos '}' level (prettyMembers (level + 1) members)
  obtain ⟨fuel, rfl⟩ := Nat.exists_eq_add_one_of_ne_zero (by omega : fuel ≠ 0)
  cases members with
  | nil =>
    rw [prettyMembers, inside_nil, List.singleton_append, readMembers,
      skipSpace_cons_of_visible rfl]
    rfl
  | cons e members =>
    obtain ⟨name, value⟩ := e
    have hhead : (printString name ++ ": " ++ prettyAt (level + 1) value).toList =
        '"' :: (name.toList.flatMap printChar ++ ['"'] ++ ": ".toList ++
          (prettyAt (level + 1) value).toList) := by
      simp only [String.toList_append, printString_toList, List.cons_append]
    obtain ⟨cs, hcs⟩ :=
      exists_lines_eq_cons hhead (level + 1) (prettyMembers (level + 1) members)
    rw [prettyMembers, inside_cons] at hfuel ⊢
    rw [← prettyMembers] at hfuel hcs ⊢
    have hlevel := newline_length_pos level
    simp only [List.length_append, List.length_singleton] at hfuel
    have hbody := readMoreMembers_printed (List.cons_ne_nil _ _) hmembers
      (skipSpace_closing '}' rfl level rest) (endsNumber_newline level _) fuel (by omega)
    rw [hcs] at hbody ⊢
    rw [List.append_assoc, readMembers, skipSpace_newline, List.append_assoc, List.cons_append,
      skipSpace_cons_of_visible rfl]
    simpa using hbody

/-- A printed object is read as this object, if its values are. -/
theorem readsAs_object {level : Nat} {members : List (String × Json)}
    (ascending : Ascending members)
    (hmembers : ∀ e ∈ members, ReadsAs depth (prettyAt (level + 1) e.2) e.2) :
    ReadsAs (depth + 1) (prettyAt level (.object members)) (.object members) := by
  intro fuel rest hfuel _
  rw [prettyAt_object_toList, List.length_cons] at hfuel
  obtain ⟨fuel, rfl⟩ := Nat.exists_eq_add_one_of_ne_zero (by omega : fuel ≠ 0)
  rw [prettyAt_object_toList, List.cons_append, readValue, skipSpace_cons_of_visible rfl]
  simp only
  rw [readMembers_printed hmembers (by omega), Option.map_some, ofMembers_of_ascending ascending]

/-- A printed array is read as this array, if its items are. -/
theorem readsAs_array {level : Nat} {items : List Json} (hfree : ∀ item ∈ items, DoubleFree item)
    (hitems : ∀ item ∈ items, ReadsAs depth (prettyAt (level + 1) item) item) :
    ReadsAs (depth + 1) (prettyAt level (.array items)) (.array items) := by
  intro fuel rest hfuel _
  rw [prettyAt_array_toList, List.length_cons] at hfuel
  obtain ⟨fuel, rfl⟩ := Nat.exists_eq_add_one_of_ne_zero (by omega : fuel ≠ 0)
  rw [prettyAt_array_toList, List.cons_append, readValue, skipSpace_cons_of_visible rfl]
  simp only
  cases items with
  | nil =>
    rw [prettyItems, inside_nil, List.singleton_append, skipSpace_cons_of_visible rfl]
    rfl
  | cons item items =>
    obtain ⟨c, cs, hhead, hvisible, hopen⟩ :=
      exists_prettyAt_eq_cons (hfree item List.mem_cons_self) (level + 1)
    obtain ⟨cs', hcs⟩ := exists_lines_eq_cons hhead (level + 1) (prettyItems (level + 1) items)
    rw [prettyItems, inside_cons] at hfuel ⊢
    rw [← prettyItems] at hfuel hcs ⊢
    have hlevel := newline_length_pos level
    simp only [List.length_append, List.length_singleton] at hfuel
    have hbody := readItems_printed (List.cons_ne_nil _ _) hitems
      (skipSpace_closing ']' rfl level rest) (endsNumber_newline level _) fuel (by omega)
    rw [hcs] at hbody ⊢
    rw [List.append_assoc, skipSpace_newline, List.append_assoc, List.append_assoc,
      List.singleton_append, List.cons_append, skipSpace_cons_of_visible hvisible]
    rw [List.cons_append] at hbody
    split
    · exact absurd (List.cons.inj ‹_›).1 hopen
    · rw [hbody]
      rfl

/-- A value without doubles that can be read is read back from its printed form. -/
theorem readValue_prettyAt {v : Json} (h : Legible depth v) (hfree : DoubleFree v) (level : Nat) :
    ReadsAs depth (prettyAt level v) v := by
  induction h generalizing level with
  | null =>
    rw [prettyAt]
    exact readsAs_null
  | bool value =>
    cases value with
    | false =>
      rw [prettyAt]
      exact readsAs_false
    | true =>
      rw [prettyAt]
      exact readsAs_true
  | integer hfits =>
    rw [prettyAt]
    exact readsAs_integer hfits
  | double => cases hfree
  | string value =>
    rw [prettyAt]
    exact readsAs_string value
  | array _ ih =>
    cases hfree with | array free => ?_
    exact readsAs_array free fun item hitem => ih item hitem (free item hitem) (level + 1)
  | object ascending _ ih =>
    cases hfree with | object free => ?_
    exact readsAs_object ascending fun e he => ih e he (free e he) (level + 1)

/-- The text of a printable value stands for this value. -/
theorem read_pretty {v : Json} (h : Printable maxDepth v) : read v.pretty = some v := by
  have hread := readValue_prettyAt h.legible h.free 0 (fuelFor v.pretty.toList) []
    (by rw [fuelFor, pretty]; omega) (by rintro c ⟨⟩)
  rw [List.append_nil] at hread
  simp only [read, pretty] at hread ⊢
  simp only [hread]
  rfl

end ChannelDirectory.Json
