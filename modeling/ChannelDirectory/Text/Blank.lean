/-!
# Blank and control characters

`isBlank` holds of the characters with the Unicode property White_Space, and `trim`
takes them off both ends of a text. A zero-width space, a byte order mark and the
Mongolian vowel separator are not blank. `isControl` holds of the general category Cc.
-/

namespace ChannelDirectory.Text

/-- The character has the Unicode property White_Space. -/
def isBlank (c : Char) : Bool :=
  let n := c.toNat
  (0x09 ≤ n && n ≤ 0x0D) || n == 0x20 || n == 0x85 || n == 0xA0 || n == 0x1680 ||
    (0x2000 ≤ n && n ≤ 0x200A) || n == 0x2028 || n == 0x2029 || n == 0x202F ||
    n == 0x205F || n == 0x3000

/-- The character has general category Cc. -/
def isControl (c : Char) : Bool :=
  let n := c.toNat
  n ≤ 0x1F || (0x7F ≤ n && n ≤ 0x9F)

/-- Drops the last characters while they are blank. -/
def dropBlanksRight (cs : List Char) : List Char :=
  (cs.reverse.dropWhile isBlank).reverse

/-- Drops blank characters at both ends. -/
def trimChars (cs : List Char) : List Char :=
  dropBlanksRight (cs.dropWhile isBlank)

/-- The text without its blank characters at both ends. -/
def trim (s : String) : String :=
  String.ofList (trimChars s.toList)

/-- The text without its blank characters at the end. -/
def trimRight (s : String) : String :=
  String.ofList (dropBlanksRight s.toList)

/-- Nothing is left of the text when it is trimmed. -/
def isBlankText (s : String) : Bool :=
  s.toList.all isBlank

/-- What `trimRight` takes off is blank. -/
theorem exists_append_dropBlanksRight (cs : List Char) :
    ∃ tail, cs = dropBlanksRight cs ++ tail ∧ tail.all isBlank := by
  refine ⟨(cs.reverse.takeWhile isBlank).reverse, ?_, ?_⟩
  · rw [dropBlanksRight, ← List.reverse_append, List.takeWhile_append_dropWhile,
      List.reverse_reverse]
  · simp [List.all_reverse]

end ChannelDirectory.Text
