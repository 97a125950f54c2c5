import Cabinet.Crc32
import Mathlib.Algebra.GroupWithZero.Nat
import Mathlib.Logic.Function.Iterate
/-!
# The checksum, bit by bit

The register takes in a byte by looking up eight shifts in a table. A register without a table takes in
one bit at a time: it shifts to the right, and if the bit that goes out is not the bit that comes in, the
generator is added, where addition is exclusive or (`feed`). Feeding is additive in the register and in
the bit (`feed_xor`). So it makes no difference whether bits are fed one by one or are all added to the
register first, as the table does (`foldl_feed_lowBits`), and what the table gives for a whole byte is
what feeding its bits does (`step_eq_foldl_feed`).
-/

namespace Cabinet.Crc32

/-! ### Feeding a bit -/

/-- The bit that goes out at the next shift. -/
def outgoing (crc : UInt32) : Bool := crc.toNat.testBit 0

/-- Takes in one bit. -/
def feed (crc : UInt32) (bit : Bool) : UInt32 :=
  if outgoing crc ≠ bit then (crc >>> 1) ^^^ generator else crc >>> 1

/-- What is added at a shift. -/
def correction (differ : Bool) : UInt32 := if differ then generator else 0

theorem feed_eq (crc : UInt32) (bit : Bool) :
    feed crc bit = (crc >>> 1) ^^^ correction (outgoing crc ^^ bit) := by
  rw [feed, correction]
  cases outgoing crc <;> cases bit <;> simp

theorem correction_xor (a b : Bool) : correction (a ^^ b) = correction a ^^^ correction b := by
  cases a <;> cases b <;> decide

theorem outgoing_xor (c d : UInt32) : outgoing (c ^^^ d) = (outgoing c ^^ outgoing d) := by
  rw [outgoing, UInt32.toNat_xor, Nat.testBit_xor]
  rfl

theorem toNat_shiftRight_one (c : UInt32) : (c >>> 1).toNat = c.toNat >>> 1 :=
  UInt32.toNat_shiftRight c 1

theorem xor_shiftRight_one (c d : UInt32) : (c ^^^ d) >>> 1 = (c >>> 1) ^^^ (d >>> 1) := by
  rw [← UInt32.toNat_inj, UInt32.toNat_xor, toNat_shiftRight_one, toNat_shiftRight_one,
    toNat_shiftRight_one, UInt32.toNat_xor, Nat.shiftRight_xor_distrib]

/-- **Feeding is additive.** -/
theorem feed_xor (c d : UInt32) (a b : Bool) : feed (c ^^^ d) (a ^^ b) = feed c a ^^^ feed d b := by
  have bits : (outgoing (c ^^^ d) ^^ (a ^^ b)) = ((outgoing c ^^ a) ^^ (outgoing d ^^ b)) := by
    rw [outgoing_xor, Bool.xor_assoc, Bool.xor_assoc, Bool.xor_left_comm (outgoing d)]
  rw [feed_eq, feed_eq, feed_eq, bits, correction_xor, xor_shiftRight_one]
  ac_rfl

/-- A shift takes in a zero. -/
theorem shift_eq_feed (crc : UInt32) : shift crc = feed crc false := by
  have low : crc &&& 1 = 1 ↔ outgoing crc = true := by
    rw [← UInt32.toNat_inj, UInt32.toNat_and, outgoing, Nat.testBit_zero, decide_eq_true_iff]
    show crc.toNat &&& 1 = 1 ↔ _
    rw [Nat.and_one_is_mod]
  rw [shift, feed]
  by_cases h : outgoing crc = true
  · rw [if_pos (low.2 h), if_pos (by simp [h])]
  · rw [if_neg fun one => h (low.1 one), if_neg (by simpa using h)]

/-- A bit that equals the outgoing one only shifts. -/
theorem feed_outgoing (crc : UInt32) : feed crc (outgoing crc) = crc >>> 1 := if_neg (not_not.2 rfl)

/-- A bit may be added to the register before it is shifted. -/
theorem shift_xor (c v : UInt32) : shift (c ^^^ v) = feed c (outgoing v) ^^^ (v >>> 1) := by
  have none : (outgoing v ^^ outgoing v) = false := Bool.xor_self _
  rw [shift_eq_feed, ← none, feed_xor, feed_outgoing]

/-! ### Feeding several bits -/

/-- The lowest bits of a number, the lowest one first. -/
def lowBits (n v : Nat) : List Bool := (List.range n).map v.testBit

@[simp] theorem length_lowBits (n v : Nat) : (lowBits n v).length = n := by simp [lowBits]

theorem lowBits_succ (n v : Nat) : lowBits (n + 1) v = lowBits n v ++ [v.testBit n] := by
  rw [lowBits, List.range_succ, List.map_append]
  rfl

theorem lowBits_succ_eq_cons (n v : Nat) :
    lowBits (n + 1) v = v.testBit 0 :: lowBits n (v >>> 1) := by
  rw [lowBits, List.range_succ_eq_map, List.map_cons, List.map_map]
  refine congrArg _ (List.map_congr_left fun i _ => ?_)
  rw [Nat.testBit_shiftRight, Nat.add_comm 1 i]
  rfl

/-- The bits of a byte. -/
def bitsOfByte (b : UInt8) : List Bool := lowBits 8 b.toNat

/-- The bits of a byte string, those of each byte lowest first. -/
def bitsOf (bytes : ByteArray) : List Bool := bytes.data.toList.flatMap bitsOfByte

/-- What is left of a word when `n` bits have gone out. -/
def dropBits (n : Nat) (v : UInt32) : UInt32 := .ofNat (v.toNat >>> n)

theorem toNat_dropBits (n : Nat) (v : UInt32) : (dropBits n v).toNat = v.toNat >>> n :=
  UInt32.toNat_ofNat_of_lt' (Nat.lt_of_le_of_lt (Nat.shiftRight_le ..) v.toNat_lt)

theorem dropBits_zero (v : UInt32) : dropBits 0 v = v := UInt32.ofNat_toNat

theorem dropBits_succ (n : Nat) (v : UInt32) : dropBits (n + 1) v = dropBits n v >>> 1 := by
  rw [← UInt32.toNat_inj, toNat_shiftRight_one, toNat_dropBits, toNat_dropBits, Nat.shiftRight_add]

theorem outgoing_dropBits (n : Nat) (v : UInt32) : outgoing (dropBits n v) = v.toNat.testBit n := by
  rw [outgoing, toNat_dropBits, Nat.testBit_shiftRight, Nat.add_zero]

/-- **Bits may be added to the register before it is shifted**, and what of them has not gone out is
then still in it. -/
theorem foldl_feed_lowBits (n : Nat) (c v : UInt32) :
    (lowBits n v.toNat).foldl feed c ^^^ dropBits n v = shift^[n] (c ^^^ v) := by
  induction n with
  | zero =>
    rw [dropBits_zero]
    rfl
  | succ n ih =>
    rw [Function.iterate_succ_apply', ← ih, shift_xor, outgoing_dropBits, lowBits_succ,
      List.foldl_append, dropBits_succ]
    rfl

/-! ### Feeding a byte -/

theorem lowBits_mod (n v : Nat) : lowBits n (v % 2 ^ n) = lowBits n v := by
  refine List.map_congr_left fun i hi => ?_
  rw [Nat.testBit_mod_two_pow, decide_eq_true (List.mem_range.1 hi), Bool.true_and]

theorem dropBits_eq_zero {n : Nat} {v : UInt32} (short : v.toNat < 2 ^ n) : dropBits n v = 0 := by
  rw [← UInt32.toNat_inj, toNat_dropBits, Nat.shiftRight_eq_div_pow, Nat.div_eq_of_lt short]
  rfl

/-- If no bits stand above the lowest `n`, these are all that is fed. -/
theorem foldl_feed_of_lt {n : Nat} {v : UInt32} (short : v.toNat < 2 ^ n) (c : UInt32) :
    (lowBits n v.toNat).foldl feed c = shift^[n] (c ^^^ v) := by
  rw [← foldl_feed_lowBits, dropBits_eq_zero short, UInt32.xor_zero]

/-- **Shifts are looked up by the bits that go out**, and the others are added. -/
theorem shift_iterate_eq (n : Nat) (v : UInt32) :
    shift^[n] v = shift^[n] (.ofNat (v.toNat % 2 ^ n)) ^^^ dropBits n v := by
  have low : (UInt32.ofNat (v.toNat % 2 ^ n)).toNat = v.toNat % 2 ^ n :=
    UInt32.toNat_ofNat_of_lt' (Nat.lt_of_le_of_lt (Nat.mod_le ..) v.toNat_lt)
  have short : (UInt32.ofNat (v.toNat % 2 ^ n)).toNat < 2 ^ n := by
    rw [low]
    exact Nat.mod_lt _ (Nat.two_pow_pos n)
  have all := foldl_feed_lowBits n 0 v
  have looked := foldl_feed_of_lt short 0
  rw [UInt32.zero_xor] at all looked
  rw [← all, ← looked, low, lowBits_mod]

theorem getElem_table {i : Nat} (h : i < table.size) : table[i] = shift^[8] (.ofNat i) := by
  simp only [table, Array.getElem_ofFn]
  rfl

/-- **What the table gives for a byte** is what feeding its bits does. -/
theorem step_eq_foldl_feed (crc : UInt32) (b : UInt8) : step crc b = (bitsOfByte b).foldl feed crc := by
  have byte : b.toUInt32.toNat = b.toNat := UInt8.toNat_toUInt32 b
  have drop : dropBits 8 (crc ^^^ b.toUInt32) = crc >>> 8 := by
    rw [← UInt32.toNat_inj, toNat_dropBits, UInt32.toNat_xor, Nat.shiftRight_xor_distrib, byte,
      Nat.shiftRight_eq_div_pow b.toNat, Nat.div_eq_of_lt b.toNat_lt, Nat.xor_zero]
    exact (UInt32.toNat_shiftRight crc 8).symm
  have fed := foldl_feed_of_lt (n := 8) (byte ▸ b.toNat_lt) crc
  rw [byte] at fed
  rw [bitsOfByte, fed, shift_iterate_eq, drop, UInt32.xor_comm, step, getElem_table,
    UInt32.toNat_toUInt8]

/-- **The register after all bytes** is what feeding all bits leaves. -/
theorem update_eq_foldl_feed (crc : UInt32) (bytes : ByteArray) :
    update crc bytes = (bitsOf bytes).foldl feed crc := by
  rw [update, bitsOf, List.foldl_flatMap, ← Array.foldl_toList]
  exact congrArg (fun f => bytes.data.toList.foldl f crc)
    (funext fun crc => funext fun b => step_eq_foldl_feed crc b)

end Cabinet.Crc32
