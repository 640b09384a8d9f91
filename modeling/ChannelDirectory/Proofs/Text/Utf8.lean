import ChannelDirectory.Text.Utf8

/-!
# UTF-8 read back

`Utf8.decode` reads back what `Utf8.encode` writes (`Utf8.decode_encode`). A character is followed
through the machine byte by byte : its first byte says how many bytes are to come and between which
bounds the second one lies (`begin_two`, `begin_three`, `begin_four`), and each byte after it adds
six bits (`decodeFrom_inside_zero`, `decodeFrom_inside_succ`). That the bounds are kept comes from
the range of the character, surrogates being none.
-/

namespace ChannelDirectory.Text.Utf8

/-! ## One byte -/

theorem begin_two {b : Nat} (hlow : 0xC2 ≤ b) (hhigh : b ≤ 0xDF) :
    begin b = ([], .inside 0 (b - 0xC0) 0x80 0xBF) := by
  rw [begin, if_neg (by omega), if_pos (by simp; omega)]

/-- After the first byte of three, the second one is neither overlong nor of a surrogate. -/
theorem begin_three {b : Nat} (hlow : 0xE0 ≤ b) (hhigh : b ≤ 0xEF) :
    begin b = ([], .inside 1 (b - 0xE0) (if b = 0xE0 then 0xA0 else 0x80)
      (if b = 0xED then 0x9F else 0xBF)) := by
  rw [begin, if_neg (by omega), if_neg (by simp; omega)]
  by_cases hfirst : b = 0xE0
  · subst hfirst
    rfl
  by_cases hsurrogate : b = 0xED
  · subst hsurrogate
    rfl
  rw [if_neg (by simpa using hfirst), if_neg (by simpa using hsurrogate), if_pos (by simp; omega),
    if_neg hfirst, if_neg hsurrogate]

/-- After the first byte of four, the second one is neither overlong nor out of range. -/
theorem begin_four {b : Nat} (hlow : 0xF0 ≤ b) (hhigh : b ≤ 0xF4) :
    begin b = ([], .inside 2 (b - 0xF0) (if b = 0xF0 then 0x90 else 0x80)
      (if b = 0xF4 then 0x8F else 0xBF)) := by
  rw [begin, if_neg (by omega), if_neg (by simp; omega), if_neg (by simp; omega),
    if_neg (by simp; omega), if_neg (by simp; omega)]
  by_cases hfirst : b = 0xF0
  · subst hfirst
    rfl
  by_cases hlast : b = 0xF4
  · subst hlast
    rfl
  rw [if_neg (by simpa using hfirst), if_neg (by simpa using hlast), if_pos (by simp; omega),
    if_neg hfirst, if_neg hlast]

/-- The last byte of a character completes it. -/
theorem decodeFrom_inside_zero {value low high : Nat} {b : UInt8} (hlow : low ≤ b.toNat)
    (hhigh : b.toNat ≤ high) (bytes : List UInt8) :
    decodeFrom (.inside 0 value low high) (b :: bytes) =
      Char.ofNat (value * 64 + (b.toNat - 0x80)) :: decodeFrom .start bytes := by
  rw [decodeFrom, step, if_pos (by simp [hlow, hhigh])]
  rfl

theorem decodeFrom_inside_succ {missing value low high : Nat} {b : UInt8} (hlow : low ≤ b.toNat)
    (hhigh : b.toNat ≤ high) (bytes : List UInt8) :
    decodeFrom (.inside (missing + 1) value low high) (b :: bytes) =
      decodeFrom (.inside missing (value * 64 + (b.toNat - 0x80)) 0x80 0xBF) bytes := by
  rw [decodeFrom, step, if_pos (by simp [hlow, hhigh])]
  rfl

/-! ## One character -/

theorem decodeFrom_start {b : Nat} (hb : b < 256) {state : State} (h : begin b = ([], state))
    (bytes : List UInt8) :
    decodeFrom .start (UInt8.ofNat b :: bytes) = decodeFrom state bytes := by
  rw [decodeFrom, UInt8.toNat_ofNat_of_lt' hb, step, h]
  rfl

/-- The bytes of a character are read as this character. -/
theorem decodeFrom_start_char (c : Char) (bytes : List UInt8) :
    decodeFrom .start (String.utf8EncodeChar c ++ bytes) = c :: decodeFrom .start bytes := by
  have hvalid : c.toNat < 0xD800 ∨ 0xDFFF < c.toNat ∧ c.toNat < 0x110000 := c.valid
  have hback : ∀ {n}, n = c.toNat → Char.ofNat n = c := fun hn => hn ▸ Char.ofNat_toNat c
  have htail : ∀ n, (UInt8.ofNat (n % 64 + 128)).toNat = n % 64 + 128 := fun n =>
    UInt8.toNat_ofNat_of_lt' (by simp [UInt8.size]; omega)
  rw [String.utf8EncodeChar]
  generalize hv : c.val.toNat = v
  change c.toNat = v at hv
  rw [hv] at hvalid hback
  split
  · rename_i hone
    rw [List.singleton_append, decodeFrom, UInt8.toNat_ofNat_of_lt' (by simp [UInt8.size]; omega),
      step, begin, if_pos (by omega)]
    rw [hback rfl]
    rfl
  split
  · rename_i hone htwo
    rw [List.cons_append, decodeFrom_start (by omega) (begin_two (by omega) (by omega)),
      List.singleton_append, decodeFrom_inside_zero (by rw [htail]; omega) (by rw [htail]; omega),
      htail, hback (by omega)]
  split
  · rename_i hone htwo hthree
    rw [List.cons_append, decodeFrom_start (by omega) (begin_three (by omega) (by omega)),
      List.cons_append, decodeFrom_inside_succ (by rw [htail]; split <;> omega)
        (by rw [htail]; split <;> omega),
      List.singleton_append, decodeFrom_inside_zero (by rw [htail]; omega) (by rw [htail]; omega),
      htail, htail, hback (by omega)]
  · rename_i hone htwo hthree
    rw [List.cons_append, decodeFrom_start (by omega) (begin_four (by omega) (by omega)),
      List.cons_append, decodeFrom_inside_succ (by rw [htail]; split <;> omega)
        (by rw [htail]; split <;> omega),
      List.cons_append, decodeFrom_inside_succ (by rw [htail]; omega) (by rw [htail]; omega),
      List.singleton_append, decodeFrom_inside_zero (by rw [htail]; omega) (by rw [htail]; omega),
      htail, htail, htail, hback (by omega)]

/-- A text that is written as bytes is read back. -/
theorem decode_encode (cs : List Char) : decode (encode cs) = cs := by
  rw [decode, encode]
  induction cs with
  | nil => rfl
  | cons c cs ih => rw [List.flatMap_cons, decodeFrom_start_char, ih]

end ChannelDirectory.Text.Utf8
