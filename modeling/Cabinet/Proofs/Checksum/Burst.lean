import Cabinet.Bytes
import Cabinet.Proofs.Checksum.Division
import Mathlib.RingTheory.Coprime.Lemmas
/-!
# Bursts of errors

A burst is an error whose bits all lie within thirty-two consecutive ones (`Crc32.Burst`). The
polynomials of the two strings then differ by a power of `X` times a polynomial of lower degree than the
divisor. The divisor has the constant term one, so it has no factor in common with `X`
(`isCoprime_divisor_X`): it divides the difference only if there is none. Hence registers that take in a
burst are told apart from then on (`foldl_feed_ne`), and a burst always shows in the checksum
(`checksum_ne_of_burst`).
-/

namespace Cabinet

/-! ### The bits of a byte string -/

/-- A bit of a byte string, those of each byte counted from the lowest one; zero behind the end. -/
def Bytes.bit (bytes : ByteArray) (i : Nat) : Bool :=
  (Bytes.get bytes (i / 8)).toNat.testBit (i % 8)

/-- Byte strings of one length with the same bits are the same. -/
theorem Bytes.eq_of_bit {a b : ByteArray} (size : a.size = b.size)
    (bits : ∀ i, Bytes.bit a i = Bytes.bit b i) : a = b := by
  refine eq_of_get size fun i _ => byte_eq_of_testBit fun j hj => ?_
  have same := bits (8 * i + j)
  simp only [bit] at same
  rwa [show (8 * i + j) / 8 = i by omega, show (8 * i + j) % 8 = j by omega] at same

/-- Behind the end all bits are zero. -/
theorem Bytes.bit_of_le {bytes : ByteArray} {i : Nat} (h : 8 * bytes.size ≤ i) :
    Bytes.bit bytes i = false := by
  rw [Bytes.bit, Bytes.get_of_le (by omega)]
  exact Nat.zero_testBit _

namespace Crc32

open Polynomial

/-- `n` bits of a byte string, from bit `i` on. -/
def bitsFrom (bytes : ByteArray) (i n : Nat) : List Bool :=
  (List.range n).map fun k => Bytes.bit bytes (i + k)

variable {a b : ByteArray} {i n : Nat}

@[simp] theorem length_bitsFrom : (bitsFrom a i n).length = n := by simp [bitsFrom]

theorem bitsFrom_add (bytes : ByteArray) (i n m : Nat) :
    bitsFrom bytes i (n + m) = bitsFrom bytes i n ++ bitsFrom bytes (i + n) m := by
  simp only [bitsFrom, List.range_add, List.map_append, List.map_map]
  congr 1
  refine List.map_congr_left fun k _ => ?_
  simp only [Function.comp, Nat.add_assoc]

theorem bitsFrom_congr (h : ∀ k < n, Bytes.bit a (i + k) = Bytes.bit b (i + k)) :
    bitsFrom a i n = bitsFrom b i n :=
  List.map_congr_left fun k hk => h k (List.mem_range.1 hk)

/-- Strings that agree in a run of bits agree in each bit of it. -/
theorem bit_eq_of_bitsFrom (h : bitsFrom a i n = bitsFrom b i n) {k : Nat} (hk : k < n) :
    Bytes.bit a (i + k) = Bytes.bit b (i + k) :=
  List.map_inj_left.1 h k (List.mem_range.2 hk)

theorem flatMap_bitsOfByte (bs : List UInt8) :
    bs.flatMap bitsOfByte =
      (List.range (8 * bs.length)).map fun i => (bs.getD (i / 8) 0).toNat.testBit (i % 8) := by
  induction bs with
  | nil => rfl
  | cons b bs ih =>
    rw [List.flatMap_cons, ih, List.length_cons, Nat.mul_succ, Nat.add_comm, List.range_add,
      List.map_append, List.map_map]
    refine congrArg₂ (· ++ ·) (List.map_congr_left fun i hi => ?first)
      (List.map_congr_left fun i _ => ?rest)
    case first =>
      have lt : i < 8 := List.mem_range.1 hi
      rw [Nat.div_eq_of_lt lt, Nat.mod_eq_of_lt lt, List.getD_cons_zero]
    case rest =>
      simp only [Function.comp, show (8 + i) / 8 = i / 8 + 1 by omega,
        show (8 + i) % 8 = i % 8 by omega, List.getD_cons_succ]

/-- The bits of a byte string are its bits from the first one on. -/
theorem bitsOf_eq (bytes : ByteArray) : bitsOf bytes = bitsFrom bytes 0 (8 * bytes.size) := by
  have list : Bytes.ofList bytes.data.toList = bytes := by
    cases bytes
    rfl
  rw [bitsOf, flatMap_bitsOfByte, bitsFrom]
  refine List.map_congr_left fun i _ => ?_
  rw [Bytes.bit, Nat.zero_add, ← list, Bytes.get_ofList]
  rfl

/-! ### Bursts -/

/-- Two byte strings of one length that differ, and only within thirty-two consecutive bits. -/
structure Burst (a b : ByteArray) : Prop where
  /-- They have one length. -/
  size_eq : a.size = b.size
  /-- They differ. -/
  ne : a ≠ b
  /-- The bits that differ lie within thirty-two consecutive ones. -/
  within : ∃ start, ∀ i, Bytes.bit a i ≠ Bytes.bit b i → start ≤ i ∧ i < start + 32

/-- A byte that is changed is a burst. -/
theorem burst_set {bytes : ByteArray} {i : Nat} {v : UInt8} (hi : i < bytes.size)
    (hv : v ≠ Bytes.get bytes i) : Burst bytes (bytes.set i v hi) := by
  refine
    { size_eq := (Bytes.size_set ..).symm
      ne := fun same => ?differ
      within := ⟨8 * i, fun j ne => ?inside⟩ }
  case differ =>
    have byte := congrArg (Bytes.get · i) same
    exact hv (by simpa [Bytes.get_set] using byte.symm)
  case inside =>
    have changed : i = j / 8 := by
      by_contra other
      exact ne (by rw [Bytes.bit, Bytes.bit, Bytes.get_set, if_neg other])
    omega

/-- Where the bits of a burst are: all those that differ, and one of them is there, stand within at most
thirty-two bits of the strings. -/
theorem Burst.exists_window (h : Burst a b) :
    ∃ first long rest, 8 * b.size = first + (long + rest) ∧ long ≤ 32 ∧
      (∃ k < long, Bytes.bit a (first + k) ≠ Bytes.bit b (first + k)) ∧
      ∀ i, i < first ∨ first + long ≤ i → Bytes.bit a i = Bytes.bit b i := by
  obtain ⟨size, differ, start, within⟩ := h
  obtain ⟨i, ne⟩ : ∃ i, Bytes.bit a i ≠ Bytes.bit b i := by
    by_contra none
    exact differ (Bytes.eq_of_bit size fun i => by_contra fun ne => none ⟨i, ne⟩)
  have inside := within i ne
  have behind {i : Nat} (hi : 8 * b.size ≤ i) : Bytes.bit a i = Bytes.bit b i := by
    rw [Bytes.bit_of_le hi, Bytes.bit_of_le (size ▸ hi)]
  have lt : i < 8 * b.size := Nat.lt_of_not_le fun le => ne (behind le)
  -- What of the thirty-two bits is behind the end is cut off.
  refine ⟨start, min 32 (8 * b.size - start), 8 * b.size - start - 32, by omega, by omega,
    ⟨i - start, by omega, ?_⟩, fun j hj => ?_⟩
  · rwa [show start + (i - start) = i by omega]
  · by_contra other
    have inside := within j other
    exact other (behind (by omega))

/-- The bits of a burst: the strings are equal up to the burst and from its end on. -/
theorem Burst.exists_bits (h : Burst a b) :
    ∃ before w v after, bitsOf a = before ++ (w ++ after) ∧ bitsOf b = before ++ (v ++ after) ∧
      w.length = v.length ∧ w.length ≤ 32 ∧ w ≠ v := by
  obtain ⟨first, long, rest, total, short, ⟨k, hk, ne⟩, same⟩ := h.exists_window
  have before : bitsFrom a 0 first = bitsFrom b 0 first :=
    bitsFrom_congr fun k hk => same _ (.inl (by omega))
  have after : bitsFrom a (first + long) rest = bitsFrom b (first + long) rest :=
    bitsFrom_congr fun k hk => same _ (.inr (by omega))
  have split (bytes : ByteArray) (size : bytes.size = b.size) : bitsOf bytes =
      bitsFrom bytes 0 first ++ (bitsFrom bytes first long ++ bitsFrom bytes (first + long) rest) := by
    rw [bitsOf_eq, size, total, bitsFrom_add, bitsFrom_add, Nat.zero_add]
  refine ⟨bitsFrom b 0 first, bitsFrom a first long, bitsFrom b first long,
    bitsFrom b (first + long) rest, ?_, split b rfl, by simp, by simpa using short, fun equal => ?_⟩
  · rw [split a h.size_eq, before, after]
  · exact ne (bit_eq_of_bitsFrom equal hk)

/-! ### The divisor and a burst -/

/-- The divisor has no factor in common with `X`. -/
theorem isCoprime_divisor_X : IsCoprime divisor X := by
  refine ⟨1, -(X ^ 31 + X ^ 25 + X ^ 22 + X ^ 21 + X ^ 15 + X ^ 11 + X ^ 10 + X ^ 9 + X ^ 7 + X ^ 6 +
    X ^ 4 + X ^ 3 + X + 1), ?_⟩
  rw [divisor]
  ring

/-- **A burst changes the remainder**: registers that take in strings with a burst in front are told
apart. -/
theorem foldl_feed_ne {w v : List Bool} (length : w.length = v.length) (short : w.length ≤ 32)
    (differ : w ≠ v) (after : List Bool) (c : UInt32) :
    (w ++ after).foldl feed c ≠ (v ++ after).foldl feed c := by
  intro same
  have remainders := congrArg register same
  rw [register_foldl_feed, register_foldl_feed, ← sub_eq_zero, ← sub_modByMonic,
    modByMonic_eq_zero_iff_dvd monic_divisor] at remainders
  have moved : register c * X ^ (w ++ after).length + polynomial (w ++ after) * X ^ 32 -
      (register c * X ^ (v ++ after).length + polynomial (v ++ after) * X ^ 32) =
        X ^ (after.length + 32) * (polynomial w - polynomial v) := by
    rw [polynomial_append, polynomial_append, List.length_append, List.length_append, length]
    ring
  rw [moved] at remainders
  have divides : divisor ∣ polynomial w - polynomial v :=
    (isCoprime_divisor_X.pow_right).dvd_of_dvd_mul_left remainders
  have low : (polynomial w - polynomial v).degree < divisor.degree := by
    rw [degree_divisor]
    have le : (w.length : WithBot Nat) ≤ 32 := by exact_mod_cast short
    refine (degree_sub_le _ _).trans_lt (max_lt ?_ ?_)
    · exact (degree_polynomial_lt w).trans_le le
    · exact (degree_polynomial_lt v).trans_le (length ▸ le)
  have zero := eq_zero_of_dvd_of_degree_lt divides low
  exact differ (polynomial_injective length (sub_eq_zero.1 zero))

/-- **A burst always shows in the checksum.** -/
theorem checksum_ne_of_burst (h : Burst a b) : checksum a ≠ checksum b := by
  obtain ⟨before, w, v, after, bitsA, bitsB, length, short, differ⟩ := h.exists_bits
  intro same
  rw [checksum, checksum, update_eq_foldl_feed, update_eq_foldl_feed, UInt32.not_inj, bitsA, bitsB,
    List.foldl_append, List.foldl_append (l := before)] at same
  exact foldl_feed_ne length short differ after _ same

end Crc32

end Cabinet
