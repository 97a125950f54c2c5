import Cabinet.Proofs.Checksum.Serial
import Mathlib.Algebra.CharP.Two
import Mathlib.Algebra.Field.ZMod
import Mathlib.Algebra.Polynomial.Div
import Mathlib.Tactic.LinearCombination
/-!
# The checksum as a remainder

Bits are the coefficients of a polynomial over the field of two elements, the first bit that of the
highest power (`polynomial`), and so are those of the register, whose lowest bit comes first
(`register`). Then feeding a bit multiplies the register by `X`, adds the bit at `X ^ 32`, and takes away
the divisor if that leaves a term of this degree (`register_feed`); which is one step of a division. So
feeding a string leaves the remainder of its polynomial, moved up by the length of the register, and of
what was in the register before (`register_foldl_feed`). The checksum is the complement of the remainder
of the string whose first thirty-two bits are complemented (`checksum_eq_division`).
-/

namespace Cabinet.Crc32

open Polynomial

/-! ### Bits as coefficients -/

/-- A bit as a coefficient. -/
def coefficient (b : Bool) : ZMod 2 := if b then 1 else 0

theorem coefficient_xor (a b : Bool) : coefficient (a ^^ b) = coefficient a + coefficient b := by
  cases a <;> cases b <;> decide

theorem coefficient_injective {a b : Bool} (h : coefficient a = coefficient b) : a = b := by
  revert h
  cases a <;> cases b <;> decide

/-- The polynomial of a bit string. The first bit is the coefficient of the highest power. -/
noncomputable def polynomial : List Bool → (ZMod 2)[X]
  | [] => 0
  | b :: bs => C (coefficient b) * X ^ bs.length + polynomial bs

variable {bs cs : List Bool}

theorem polynomial_append (bs cs : List Bool) :
    polynomial (bs ++ cs) = polynomial bs * X ^ cs.length + polynomial cs := by
  induction bs with
  | nil => rw [List.nil_append, polynomial, zero_mul, zero_add]
  | cons b bs ih =>
    rw [List.cons_append, polynomial, ih, polynomial, List.length_append]
    ring

theorem degree_polynomial_lt (bs : List Bool) : (polynomial bs).degree < bs.length := by
  induction bs with
  | nil =>
    rw [polynomial, degree_zero]
    exact WithBot.bot_lt_coe 0
  | cons b bs ih =>
    have one : (bs.length : WithBot Nat) < (b :: bs).length := by
      exact_mod_cast Nat.lt_succ_self bs.length
    refine (degree_add_le _ _).trans_lt (max_lt ?_ (ih.trans one))
    exact (degree_C_mul_X_pow_le _ _).trans_lt one

/-- Bit strings of one length are told apart by their polynomials. -/
theorem polynomial_injective (length : bs.length = cs.length) (h : polynomial bs = polynomial cs) :
    bs = cs := by
  induction bs generalizing cs with
  | nil => exact (List.eq_nil_of_length_eq_zero length.symm).symm
  | cons b bs ih =>
    obtain _ | ⟨c, cs⟩ := cs
    · cases length
    have same : bs.length = cs.length := Nat.succ.inj length
    rw [polynomial, polynomial, same] at h
    have top := congrArg (coeff · cs.length) h
    simp only [coeff_add, coeff_C_mul, coeff_X_pow_self, mul_one,
      coeff_eq_zero_of_degree_lt (degree_polynomial_lt cs),
      coeff_eq_zero_of_degree_lt (same ▸ degree_polynomial_lt bs), add_zero] at top
    rw [coefficient_injective top] at h ⊢
    rw [ih same (add_left_cancel h)]

/-! ### The register -/

/-- The polynomial of the register. -/
noncomputable def register (crc : UInt32) : (ZMod 2)[X] := polynomial (lowBits 32 crc.toNat)

theorem degree_register_lt (crc : UInt32) : (register crc).degree < 32 := by
  have lt := degree_polynomial_lt (lowBits 32 crc.toNat)
  rw [length_lowBits] at lt
  exact lt

theorem register_injective {c d : UInt32} (h : register c = register d) : c = d := by
  have bits := polynomial_injective (by rw [length_lowBits, length_lowBits]) h
  refine UInt32.toNat_inj.1 (Nat.eq_of_testBit_eq fun i => ?_)
  by_cases lt : i < 32
  · exact List.map_inj_left.1 bits i (List.mem_range.2 lt)
  · have le : 2 ^ 32 ≤ 2 ^ i := Nat.pow_le_pow_right (by decide) (Nat.le_of_not_lt lt)
    rw [Nat.testBit_lt_two_pow (Nat.lt_of_lt_of_le c.toNat_lt le),
      Nat.testBit_lt_two_pow (Nat.lt_of_lt_of_le d.toNat_lt le)]

theorem polynomial_lowBits_succ (n v : Nat) :
    polynomial (lowBits (n + 1) v) =
      polynomial (lowBits n v) * X + C (coefficient (v.testBit n)) := by
  rw [lowBits_succ, polynomial_append]
  simp [polynomial]

/-- Addition of registers is addition of their polynomials. -/
theorem register_xor (c d : UInt32) : register (c ^^^ d) = register c + register d := by
  have all (n : Nat) : polynomial (lowBits n (c.toNat ^^^ d.toNat)) =
      polynomial (lowBits n c.toNat) + polynomial (lowBits n d.toNat) := by
    induction n with
    | zero => exact (add_zero 0).symm
    | succ n ih =>
      rw [polynomial_lowBits_succ, polynomial_lowBits_succ, polynomial_lowBits_succ, ih,
        Nat.testBit_xor, coefficient_xor, C_add]
      ring
  rw [register, UInt32.toNat_xor, all]
  rfl

/-- Moving the register up by one power takes the outgoing bit beyond it. -/
theorem register_mul_X (c : UInt32) :
    register c * X = C (coefficient (outgoing c)) * X ^ 32 + register (c >>> 1) := by
  have top : c.toNat.testBit 32 = false := Nat.testBit_lt_two_pow c.toNat_lt
  have up := polynomial_lowBits_succ 32 c.toNat
  rw [top, lowBits_succ_eq_cons, polynomial, length_lowBits] at up
  rw [register, register, toNat_shiftRight_one, outgoing, up]
  simp [coefficient]

/-! ### Division -/

/-- The divisor. -/
noncomputable def divisor : (ZMod 2)[X] :=
  X ^ 32 + X ^ 26 + X ^ 23 + X ^ 22 + X ^ 16 + X ^ 12 + X ^ 11 + X ^ 10 + X ^ 8 + X ^ 7 + X ^ 5 +
    X ^ 4 + X ^ 2 + X + 1

/-- The generator is the divisor without its leading term. -/
theorem divisor_eq : divisor = X ^ 32 + register generator := by
  have bits : lowBits 32 generator.toNat =
      [false, false, false, false, false, true, false, false, true, true, false, false, false, false,
        false, true, false, false, false, true, true, true, false, true, true, false, true, true,
        false, true, true, true] := by decide
  rw [register, bits, divisor]
  simp [polynomial, coefficient]
  ring

theorem monic_divisor : divisor.Monic := by
  rw [divisor_eq]
  exact monic_X_pow_add (degree_register_lt generator)

theorem degree_divisor : divisor.degree = 32 := by
  rw [divisor_eq, degree_add_eq_left_of_degree_lt, degree_X_pow]
  · rfl
  · rw [degree_X_pow]
    exact degree_register_lt generator

theorem register_zero : register 0 = 0 := by
  have twice := register_xor 0 0
  rwa [UInt32.xor_self, CharTwo.add_self_eq_zero] at twice

theorem register_correction (differ : Bool) :
    register (correction differ) = C (coefficient differ) * register generator := by
  cases differ with
  | true => exact (one_mul _).symm
  | false => rw [correction, if_neg Bool.false_ne_true, register_zero, coefficient,
      if_neg Bool.false_ne_true, C_0, zero_mul]

/-- **Feeding a bit is a step of a division.** -/
theorem register_feed (c : UInt32) (b : Bool) :
    register (feed c b) = register c * X + C (coefficient b) * X ^ 32 +
      C (coefficient (outgoing c ^^ b)) * divisor := by
  have up := register_mul_X c
  have two : (2 : (ZMod 2)[X]) = 0 := CharTwo.two_eq_zero
  rw [feed_eq, register_xor, register_correction, divisor_eq, coefficient_xor, C_add]
  linear_combination (-1) * up -
    (C (coefficient (outgoing c)) + C (coefficient b)) * X ^ 32 * two

/-- **Feeding a string divides it**, moved up by the length of the register. -/
theorem register_foldl_feed (c : UInt32) (bs : List Bool) :
    register (bs.foldl feed c) = (register c * X ^ bs.length + polynomial bs * X ^ 32) %ₘ divisor := by
  have division : ∃ q, register (bs.foldl feed c) + divisor * q =
      register c * X ^ bs.length + polynomial bs * X ^ 32 := by
    induction bs generalizing c with
    | nil => exact ⟨0, by simp [polynomial]⟩
    | cons b bs ih =>
      obtain ⟨q, hq⟩ := ih (feed c b)
      rw [register_feed] at hq
      refine ⟨q - C (coefficient (outgoing c ^^ b)) * X ^ bs.length, ?_⟩
      rw [List.foldl_cons, polynomial, List.length_cons]
      linear_combination hq
  obtain ⟨q, hq⟩ := division
  refine (div_modByMonic_unique q _ monic_divisor ⟨hq, ?_⟩).2.symm
  rw [degree_divisor]
  exact degree_register_lt _

/-! ### The checksum -/

theorem polynomial_replicate_true (n : Nat) :
    polynomial (List.replicate n true) = ∑ i ∈ Finset.range n, X ^ i := by
  induction n with
  | zero => rfl
  | succ n ih =>
    rw [List.replicate_succ, polynomial, ih, List.length_replicate, Finset.sum_range_succ, add_comm]
    simp [coefficient]

theorem register_full : register 0xFFFFFFFF = ∑ i ∈ Finset.range 32, X ^ i := by
  rw [← polynomial_replicate_true, register]
  exact congrArg polynomial (by decide)

theorem length_bitsOf (bytes : ByteArray) : (bitsOf bytes).length = 8 * bytes.size := by
  simp [bitsOf, bitsOfByte, List.length_flatMap, mul_comm]

/-- **The checksum is bit-serial, and a remainder.** The register that starts with all bits set, takes in
the bits of each byte, lowest first, one at a time, and is complemented at the end, gives the checksum.
It is the one register whose complement is a remainder on division by the divisor: that of the byte
string moved up by thirty-two bits, of which the first thirty-two are complemented. -/
theorem checksum_eq_division (bytes : ByteArray) :
    checksum bytes = ~~~(bitsOf bytes).foldl feed 0xFFFFFFFF ∧
      ∀ crc, crc = checksum bytes ↔ register (~~~crc) =
        (X ^ 32 * polynomial (bitsOf bytes) +
          X ^ (8 * bytes.size) * ∑ i ∈ Finset.range 32, X ^ i) %ₘ divisor := by
  have serial : checksum bytes = ~~~(bitsOf bytes).foldl feed 0xFFFFFFFF := by
    rw [checksum, update_eq_foldl_feed]
  refine ⟨serial, fun crc => ?_⟩
  have remainder := register_foldl_feed 0xFFFFFFFF (bitsOf bytes)
  rw [register_full, length_bitsOf, add_comm, mul_comm _ (X ^ 32), mul_comm _ (X ^ _)] at remainder
  rw [← remainder, serial]
  constructor
  · rintro rfl
    rw [UInt32.not_not]
  · intro same
    rw [← register_injective same, UInt32.not_not]

end Cabinet.Crc32
