import Cabinet.Bytes
/-!
# Numbers in bytes

A number is stored in a fixed count of bytes, the lowest first (`getElem_encode`); bytes for which
there is no room are left out.
-/

namespace Cabinet.Little

/-- Byte `k` of a number, counted from the lowest. -/
@[inline] def byte (n k : Nat) : UInt8 := UInt8.ofNat (n >>> (8 * k))

/-- A number in `width` bytes. -/
def encode : Nat → Nat → List UInt8
  | 0, _ => []
  | width + 1, n => UInt8.ofNat n :: encode width (n >>> 8)

/-- The number in `width` bytes from position `i` on. -/
def decode (b : ByteArray) : Nat → Nat → Nat
  | 0, _ => 0
  | width + 1, i => (Bytes.get b i).toNat + 256 * decode b width (i + 1)

@[simp] theorem length_encode (width n : Nat) : (encode width n).length = width := by
  induction width generalizing n with
  | zero => rfl
  | succ w ih => simp [encode, ih]

/-- The bytes of a number in their order. -/
theorem getElem_encode (width n i : Nat) (h : i < (encode width n).length) :
    (encode width n)[i] = byte n i := by
  induction width generalizing n i with
  | zero => simp [encode] at h
  | succ w ih =>
    cases i with
    | zero => rfl
    | succ i =>
      simp only [encode, List.getElem_cons_succ, ih, byte, ← Nat.shiftRight_add]
      rw [Nat.mul_succ, Nat.add_comm]

/-- One byte more holds 256 times as many numbers. -/
theorem one_shiftLeft_succ (width : Nat) : 1 <<< (8 * (width + 1)) = 256 * 1 <<< (8 * width) := by
  rw [Nat.one_shiftLeft, Nat.one_shiftLeft, Nat.mul_succ, Nat.pow_add, Nat.mul_comm]

/-- A number is read back from where its bytes stand. -/
theorem decode_of_has {b : ByteArray} {width i n : Nat} (h : Bytes.Has b i (encode width n)) :
    decode b width i = n % 1 <<< (8 * width) := by
  induction width generalizing i n with
  | zero => simp [decode, Nat.mod_one]
  | succ w ih =>
    obtain ⟨h0, hs⟩ := h
    rw [decode, h0, ih hs, one_shiftLeft_succ, Nat.mod_mul, Nat.shiftRight_eq_div_pow]
    simp

/-- The word of sixteen bits at a position. -/
@[inline] def word16 (b : ByteArray) (i : Nat) : UInt16 := UInt16.ofNat (decode b 2 i)

/-- The word of thirty-two bits at a position. -/
@[inline] def word32 (b : ByteArray) (i : Nat) : UInt32 := UInt32.ofNat (decode b 4 i)

/-- The word of sixty-four bits at a position. -/
@[inline] def word64 (b : ByteArray) (i : Nat) : UInt64 := UInt64.ofNat (decode b 8 i)

theorem word16_of_has {b : ByteArray} {i : Nat} {w : UInt16}
    (h : Bytes.Has b i (encode 2 w.toNat)) : word16 b i = w := by
  have hw : w.toNat < 1 <<< (8 * 2) := w.toNat_lt
  rw [word16, decode_of_has h, Nat.mod_eq_of_lt hw, UInt16.ofNat_toNat]

theorem word32_of_has {b : ByteArray} {i : Nat} {w : UInt32}
    (h : Bytes.Has b i (encode 4 w.toNat)) : word32 b i = w := by
  have hw : w.toNat < 1 <<< (8 * 4) := w.toNat_lt
  rw [word32, decode_of_has h, Nat.mod_eq_of_lt hw, UInt32.ofNat_toNat]

theorem word64_of_has {b : ByteArray} {i : Nat} {w : UInt64}
    (h : Bytes.Has b i (encode 8 w.toNat)) : word64 b i = w := by
  have hw : w.toNat < 1 <<< (8 * 8) := w.toNat_lt
  rw [word64, decode_of_has h, Nat.mod_eq_of_lt hw, UInt64.ofNat_toNat]

theorem decode_lt (b : ByteArray) (width i : Nat) : decode b width i < 1 <<< (8 * width) := by
  induction width generalizing i with
  | zero => exact Nat.one_pos
  | succ width ih =>
    have low := (Bytes.get b i).toNat_lt
    have rest := ih (i + 1)
    rw [decode, one_shiftLeft_succ]
    omega

/-- The bytes of a number that was read are those that it was read from. -/
theorem encode_decode (b : ByteArray) (width i : Nat) :
    encode width (decode b width i) = (List.range width).map fun k => Bytes.get b (i + k) := by
  induction width generalizing i with
  | zero => rfl
  | succ width ih =>
    have low := (Bytes.get b i).toNat_lt
    have rest : decode b (width + 1) i >>> 8 = decode b width (i + 1) := by
      rw [decode, Nat.shiftRight_eq_div_pow]
      omega
    have first : UInt8.ofNat (decode b (width + 1) i) = Bytes.get b i := by
      rw [← UInt8.toNat_inj, decode, UInt8.toNat_ofNat']
      omega
    rw [encode, first, rest, ih, List.range_succ_eq_map, List.map_cons, List.map_map]
    refine congrArg _ (List.map_congr_left fun k _ => ?_)
    rw [Function.comp_apply, Nat.succ_eq_add_one, Nat.add_assoc, Nat.add_comm 1]

theorem encode_word16 (b : ByteArray) (i : Nat) :
    encode 2 (word16 b i).toNat = [Bytes.get b i, Bytes.get b (i + 1)] := by
  rw [word16, UInt16.toNat_ofNat_of_lt' (decode_lt b 2 i), encode_decode]
  rfl

theorem encode_word32 (b : ByteArray) (i : Nat) :
    encode 4 (word32 b i).toNat =
      [Bytes.get b i, Bytes.get b (i + 1), Bytes.get b (i + 2), Bytes.get b (i + 3)] := by
  rw [word32, UInt32.toNat_ofNat_of_lt' (decode_lt b 4 i), encode_decode]
  rfl

theorem encode_word64 (b : ByteArray) (i : Nat) :
    encode 8 (word64 b i).toNat =
      [Bytes.get b i, Bytes.get b (i + 1), Bytes.get b (i + 2), Bytes.get b (i + 3),
        Bytes.get b (i + 4), Bytes.get b (i + 5), Bytes.get b (i + 6), Bytes.get b (i + 7)] := by
  rw [word64, UInt64.toNat_ofNat_of_lt' (decode_lt b 8 i), encode_decode]
  rfl

end Cabinet.Little
