/-!
# Words and their bytes

Sixteen-bit words as a high and a low byte. A word and its two bytes determine each other.
-/

namespace Cabinet

/-- The word with high byte `hi` and low byte `lo`. -/
@[inline] def word (hi lo : UInt8) : UInt16 := (hi.toUInt16 <<< 8) ||| lo.toUInt16

/-- The high byte of a word. -/
@[inline] def hiByte (w : UInt16) : UInt8 := (w >>> 8).toUInt8

/-- The low byte of a word. -/
@[inline] def loByte (w : UInt16) : UInt8 := w.toUInt8

theorem toNat_word (hi lo : UInt8) : (word hi lo).toNat = 256 * hi.toNat + lo.toNat := by
  have low := lo.toNat_lt
  have high := hi.toNat_lt
  have fits : hi.toNat <<< 8 % 2 ^ 16 = hi.toNat <<< 8 := by
    rw [Nat.shiftLeft_eq]
    omega
  rw [word, UInt16.toNat_or, UInt16.toNat_shiftLeft, UInt8.toNat_toUInt16, UInt8.toNat_toUInt16]
  show hi.toNat <<< 8 % 2 ^ 16 ||| lo.toNat = _
  rw [fits, ← Nat.shiftLeft_add_eq_or_of_lt low, Nat.shiftLeft_eq]
  omega

theorem toNat_hiByte (w : UInt16) : (hiByte w).toNat = w.toNat / 256 := by
  have bound := w.toNat_lt
  rw [hiByte, UInt16.toNat_toUInt8, UInt16.toNat_shiftRight]
  show w.toNat >>> 8 % 2 ^ 8 = _
  rw [Nat.shiftRight_eq_div_pow]
  omega

theorem toNat_loByte (w : UInt16) : (loByte w).toNat = w.toNat % 256 :=
  UInt16.toNat_toUInt8 w

theorem hiByte_word (hi lo : UInt8) : hiByte (word hi lo) = hi := by
  have low := lo.toNat_lt
  rw [← UInt8.toNat_inj, toNat_hiByte, toNat_word]
  omega

theorem loByte_word (hi lo : UInt8) : loByte (word hi lo) = lo := by
  have low := lo.toNat_lt
  rw [← UInt8.toNat_inj, toNat_loByte, toNat_word]
  omega

theorem word_hiByte_loByte (w : UInt16) : word (hiByte w) (loByte w) = w := by
  rw [← UInt16.toNat_inj, toNat_word, toNat_hiByte, toNat_loByte]
  omega

end Cabinet
