import ChannelDirectory.Json.Printer
import ChannelDirectory.Json.Reader
import Mathlib.Tactic.IntervalCases

/-!
# Printed strings read back

`readString` undoes `printString`, whatever text stands after the closing quote
(`Json.readString_printed`). The text is followed character by character : what `printChar` writes
for a character is read as this character (`Json.readChars_printChar`), also where it is an escape.
-/

namespace ChannelDirectory.Json

/-- The four digits of a control character are read as its number. -/
theorem hex4?_control : ∀ n < 0x20, ∃ a b c d,
    List.replicate (4 - (Text.hexDigits n).length) '0' ++ Text.hexDigits n = [a, b, c, d] ∧
      hex4? a b c d = some n := by
  intro n hn
  interval_cases n <;> exact ⟨_, _, _, _, rfl, rfl⟩

/-- Four hexadecimal digits are read as one character, outside the surrogates. -/
theorem readChars_unicode {a b c d : Char} {n : Nat} (h : hex4? a b c d = some n) (hn : n < 0xD800)
    (cs : List Char) :
    readChars ('\\' :: 'u' :: a :: b :: c :: d :: cs) =
      (readChars cs).map fun (out, rest) => (Char.ofNat n :: out, rest) := by
  rw [readChars, h]
  simp only
  rw [if_neg (by simp; omega), if_neg (by simp; omega)]

/-- What is written for a character is read as this character. -/
theorem readChars_printChar (c : Char) (cs : List Char) :
    readChars (printChar c ++ cs) = (readChars cs).map fun (out, rest) => (c :: out, rest) := by
  unfold printChar
  split
  case h_8 hquote hslash _ _ _ _ _ =>
    split
    · rename_i hcontrol
      obtain ⟨x, y, z, w, hdigits, hvalue⟩ := hex4?_control c.toNat hcontrol
      simp only [List.cons_append, hdigits]
      rw [List.nil_append, readChars_unicode hvalue (by omega), Char.ofNat_toNat]
    · rename_i hvisible
      rw [List.singleton_append, readChars]
      · rw [if_neg (by simpa using ⟨Nat.le_of_not_lt hvisible, hslash⟩)]
      all_goals simp_all
  all_goals simp [readChars, escaped?]

/-- Printed characters are read up to the closing quote. -/
theorem readChars_printed (cs rest : List Char) :
    readChars (cs.flatMap printChar ++ '"' :: rest) = some (cs, rest) := by
  induction cs with
  | nil => rfl
  | cons c cs ih => rw [List.flatMap_cons, List.append_assoc, readChars_printChar, ih]; rfl

/-- A printed string is read back from after its opening quote. -/
theorem readString_printed (s : String) (rest : List Char) :
    readString (s.toList.flatMap printChar ++ '"' :: rest) = some (s, rest) := by
  simp [readString, readChars_printed]

theorem printString_toList (s : String) :
    (printString s).toList = '"' :: (s.toList.flatMap printChar ++ ['"']) := by
  rw [printString, String.toList_ofList]
  rfl

end ChannelDirectory.Json
