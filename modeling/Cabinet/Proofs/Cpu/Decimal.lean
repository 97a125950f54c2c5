import Cabinet.Proofs.Cpu.Burst
import Cabinet.Proofs.Cpu.Sequence
/-!
# Decimal addition

A byte can hold two decimal digits, one in each half (`IsDecimal`). The sum of two such bytes is a sum
of binary numbers; the adjustment makes decimal digits of it again, and of its carry the carry beyond
ninety-nine (`Circuit.AddsDecimal.digit`). A chain of additions, each followed by an adjustment, adds
decimal numbers of any length (`Chain.decimal_adds`).

A program makes such an addition with three instructions for each byte (`Circuit.exists_addsDecimal`), and
one circuit adds numbers of any length (`Circuit.exists_works_adding`).
-/

namespace Cabinet

/-! ### Decimal digits in a byte -/

/-- The number that the halves of a byte stand for as two decimal digits. -/
def decimalValue (b : UInt8) : ℕ := 10 * (b.toNat / 16) + b.toNat % 16

/-- Both halves of a byte are decimal digits. -/
def IsDecimal (b : UInt8) : Prop := b.toNat / 16 ≤ 9 ∧ b.toNat % 16 ≤ 9

instance : DecidablePred IsDecimal := fun b =>
  inferInstanceAs (Decidable (b.toNat / 16 ≤ 9 ∧ b.toNat % 16 ≤ 9))

theorem IsDecimal.value_lt {b : UInt8} (h : IsDecimal b) : decimalValue b < 100 := by
  obtain ⟨high, low⟩ := h
  rw [decimalValue]
  omega

/-- The number that bytes of two decimal digits stand for, the lowest first. -/
def Little.decimal (bs : List UInt8) : ℕ := Nat.ofDigits 100 (bs.map decimalValue)

theorem Little.decimal_nil : decimal [] = 0 := rfl

theorem Little.decimal_cons (b : UInt8) (bs : List UInt8) :
    decimal (b :: bs) = decimalValue b + 100 * decimal bs := by
  rw [decimal, List.map_cons, Nat.ofDigits_cons]
  rfl

theorem Little.decimal_lt {bs : List UInt8} (digits : ∀ b ∈ bs, IsDecimal b) :
    decimal bs < 100 ^ bs.length := by
  have small : ∀ d ∈ bs.map decimalValue, d < 100 :=
    List.forall_mem_map.2 fun b mem => (digits b mem).value_lt
  have bound := Nat.ofDigits_lt_base_pow_length (by decide) small
  rwa [List.length_map] at bound

/-! ### The adjustment -/

namespace Alu

/-- The low half of a sum is to be corrected. -/
def fixesLow (s : ℕ) (auxCarry : Bool) : Bool := auxCarry || 9 < s % 16

/-- The high half of a sum is to be corrected. -/
def fixesHigh (s : ℕ) (carry : Bool) : Bool := carry || 9 < s / 16 || (9 ≤ s / 16 && 9 < s % 16)

/-- **The adjustment adds six to each half that is to be corrected**, and the carry says whether the high
half was. -/
theorem decimalAdjust_eq (s : UInt8) (f : Flags) :
    (decimalAdjust s f).1.toNat = (s.toNat + 6 * (fixesLow s.toNat f.auxCarry).toNat +
        96 * (fixesHigh s.toNat f.carry).toNat) % 256 ∧
      (decimalAdjust s f).2.carry = fixesHigh s.toNat f.carry := by
  have low : (s &&& 0x0F > 9) ↔ 9 < s.toNat % 16 := by
    rw [← toNat_and_fifteen]
    exact UInt8.lt_iff_toNat_lt
  have shifted : (s >>> 4).toNat = s.toNat / 16 := by
    rw [UInt8.toNat_shiftRight]
    exact Nat.shiftRight_eq_div_pow s.toNat 4
  have high : (s >>> 4 > 9) ↔ 9 < s.toNat / 16 := by
    rw [← shifted]
    exact UInt8.lt_iff_toNat_lt
  have nine : (s >>> 4 >= 9) ↔ 9 ≤ s.toNat / 16 := by
    rw [← shifted]
    exact UInt8.le_iff_toNat_le
  have correction (l h : Bool) : ((if l then (0x06 : UInt8) else 0) ||| (if h then 0x60 else 0)).toNat =
      6 * l.toNat + 96 * h.toNat := by
    cases l <;> cases h <;> rfl
  simp only [decimalAdjust, low, high, nine, sum_eq, UInt8.toNat_ofNat', correction]
  refine ⟨?_, rfl⟩
  rw [Bool.toNat_false, Nat.add_zero, ← Nat.add_assoc]
  rfl

/-! ### A sum of two decimal bytes -/

section Digits

variable {x y c : ℕ} (hx : x / 16 ≤ 9 ∧ x % 16 ≤ 9) (hy : y / 16 ≤ 9 ∧ y % 16 ≤ 9) (hc : c ≤ 1)
include hx hy hc

/-- The low half is corrected if the sum of the low digits is more than a digit. -/
theorem fixesLow_sum : fixesLow ((x + y + c) % 256) (AluOp.adc.auxCarryOut x y c) =
    decide (9 < x % 16 + y % 16 + c) := by
  rw [fixesLow, AluOp.auxCarryOut, ← Bool.decide_or, decide_eq_decide]
  omega

/-- The high half is corrected if the sum is more than two digits. -/
theorem fixesHigh_sum : fixesHigh ((x + y + c) % 256) (AluOp.adc.carryOut x y c) =
    decide (99 < 10 * (x / 16) + x % 16 + (10 * (y / 16) + y % 16) + c) := by
  rw [fixesHigh, AluOp.carryOut, ← Bool.decide_and, ← Bool.decide_or, ← Bool.decide_or,
    decide_eq_decide]
  omega

/-- **The corrected sum is that of the decimal numbers.** -/
theorem corrected_sum {z : ℕ} {carry : Bool}
    (value : z = ((x + y + c) % 256 +
      6 * (fixesLow ((x + y + c) % 256) (AluOp.adc.auxCarryOut x y c)).toNat +
      96 * carry.toNat) % 256)
    (high : carry = fixesHigh ((x + y + c) % 256) (AluOp.adc.carryOut x y c)) :
    (z / 16 ≤ 9 ∧ z % 16 ≤ 9) ∧ 10 * (z / 16) + z % 16 + 100 * carry.toNat =
      10 * (x / 16) + x % 16 + (10 * (y / 16) + y % 16) + c := by
  rw [fixesLow_sum hx hy hc] at value
  rw [fixesHigh_sum hx hy hc] at high
  subst high
  -- Six fills the gap between ten and sixteen, in each half for itself.
  by_cases low : 9 < x % 16 + y % 16 + c <;>
    by_cases high : 99 < 10 * (x / 16) + x % 16 + (10 * (y / 16) + y % 16) + c <;>
    simp only [low, high, decide_true, decide_false, Bool.toNat_true, Bool.toNat_false] at value ⊢ <;>
    omega

end Digits

end Alu

/-! ### The instructions -/

namespace Circuit

variable {σ : Type} [Bus σ] {y : UInt8} {w w' : Circuit σ}

theorem Executes.adjusts (h : w.Executes 0x27 w') :
    w'.cpu.a.toNat = (w.cpu.a.toNat +
        6 * (Alu.fixesLow w.cpu.a.toNat w.cpu.flags.auxCarry).toNat +
        96 * w'.cpu.flags.carry.toNat) % 256 ∧
      w'.cpu.flags.carry = Alu.fixesHigh w.cpu.a.toNat w.cpu.flags.carry := by
  obtain ⟨value, carry⟩ := Alu.decimalAdjust_eq w.cpu.a w.cpu.flags
  rw [← carry] at value
  rw [h.eq_exec (i := .daa) rfl rfl]
  exact ⟨value, carry⟩

/-- The byte `y` is added with the carry, and the sum is adjusted. -/
def AddsDecimal (y : UInt8) (w w' : Circuit σ) : Prop :=
  ∃ u, w.Combines .adc y u ∧ u.Executes 0x27 w'

/-- With the byte loaded before, three steps are made. -/
theorem AddsDecimal.eq_after {u : Circuit σ} {x : UInt8} (load : u.Loads x w) (h : w.AddsDecimal y w') :
    w' = u.after 3 := by
  obtain ⟨v, added, adjusted⟩ := h
  rw [adjusted.after, added.after, load.after]
  rfl

/-- One byte of a decimal sum. -/
theorem AddsDecimal.digit (h : w.AddsDecimal y w') (hx : IsDecimal w.cpu.a) (hy : IsDecimal y) :
    IsDecimal w'.cpu.a ∧ decimalValue w'.cpu.a + 100 * w'.cpu.flags.carry.toNat =
      decimalValue w.cpu.a + decimalValue y + w.cpu.flags.carry.toNat := by
  obtain ⟨u, added, adjusted⟩ := h
  obtain ⟨value, carry⟩ := adjusted.adjusts
  rw [added.sum, added.flags] at value carry
  exact Alu.corrected_sum hx hy w.cpu.flags.carry.toNat_le value carry

end Circuit

/-! ### Chains of decimal additions -/

namespace Chain

variable {σ : Type} [Bus σ] {c c' : Bool} {items : List (UInt8 × UInt8)} {zs : List UInt8}

/-- **A chain of decimal additions is the addition of the decimal numbers**, and leaves decimal digits. -/
theorem decimal_adds (h : Chain (Circuit.AddsDecimal (σ := σ)) c items zs c')
    (digits : ∀ item ∈ items, IsDecimal item.1 ∧ IsDecimal item.2) :
    (∀ z ∈ zs, IsDecimal z) ∧
      Little.decimal zs + 100 ^ items.length * c'.toNat =
        Little.decimal (items.map Prod.fst) + Little.decimal (items.map Prod.snd) + c.toNat := by
  induction h with
  | done c => simp [Little.decimal_nil]
  | link did more ih =>
    obtain ⟨hx, hy⟩ := digits _ List.mem_cons_self
    obtain ⟨first, digit⟩ := did.digit hx hy
    obtain ⟨others, rest⟩ := ih fun item mem => digits item (List.mem_cons_of_mem _ mem)
    have all := carry_step digit rest
    simp only [List.length_cons, List.map_cons, Little.decimal_cons]
    exact ⟨List.forall_mem_cons.2 ⟨first, others⟩, by linarith only [all]⟩

end Chain

/-! ### Runs of decimal additions -/

namespace Circuit

section Program

variable {σ : Type} [Bus σ] {w w' : Circuit σ} {s : σ}

/-- **A run of decimal additions is the addition of the decimal numbers.** -/
theorem Works.decimal_adds {items : List (UInt8 × UInt8)} {zs : List UInt8}
    (h : Works AddsDecimal w items zs w')
    (digits : ∀ item ∈ items, IsDecimal item.1 ∧ IsDecimal item.2) :
    zs.length = items.length ∧ (∀ z ∈ zs, IsDecimal z) ∧
      Little.decimal zs + 100 ^ items.length * w'.cpu.flags.carry.toNat =
        Little.decimal (items.map Prod.fst) + Little.decimal (items.map Prod.snd) +
          w.cpu.flags.carry.toNat :=
  ⟨h.chain.length_eq, h.chain.decimal_adds digits⟩

/-- The program that adds `y` to `x` as decimal numbers: MVI A, ACI and DAA. -/
def addingCode (x y : UInt8) : List UInt8 := [0x3E, x] ++ ([0xCE, y] ++ [0x27])

/-- **What this program does** is to load the one byte and to add the other. -/
theorem exists_addsDecimal {x y : UInt8} (running : w.cpu.halted = false)
    (code : Bus.Gives (addingCode x y) w.cpu.pc w.bus s) :
    ∃ v cpu, w.Loads x v ∧ v.AddsDecimal y ⟨cpu, s⟩ ∧ w.cpu.RunsOn 5 cpu := by
  obtain ⟨s₁, load, rest⟩ := Bus.Gives.exists_append code
  obtain ⟨cpu₁, loads, on₁⟩ := exists_loads running load
  obtain ⟨s₂, add, adjust⟩ := Bus.Gives.exists_append (rest _ on₁.pc)
  have aci : Bus.Gives [0xC6 + 8 * AluOp.adc.field, y] cpu₁.pc s₁ s₂ := add
  obtain ⟨cpu₂, combines, on₂⟩ := exists_combines_immediate (w := ⟨cpu₁, s₁⟩) on₁.running aci
  obtain ⟨cpu₃, executes, on₃⟩ := exists_executes_single (w := ⟨cpu₂, s₂⟩) (i := .daa) (f := Cpu.daa)
    on₂.running (adjust _ on₂.pc) rfl rfl (fun _ => rfl) fun _ => ⟨rfl, rfl⟩
  exact ⟨⟨cpu₁, s₁⟩, cpu₃, loads, ⟨⟨cpu₂, s₂⟩, combines, executes⟩, (on₁.trans on₂).trans on₃⟩

end Program

/-- **Decimal numbers of any length are added on one circuit.** -/
theorem exists_works_adding {cpu : Cpu} (running : cpu.halted = false)
    (items : List (UInt8 × UInt8)) :
    ∃ zs w', Works AddsDecimal ⟨cpu, Tape.forEach addingCode items⟩ items zs w' := by
  refine exists_works (fun x y running code => ?_) running items
  obtain ⟨v, cpu, load, did, on⟩ := exists_addsDecimal running code
  exact ⟨v, cpu, load, did, on.running⟩

end Circuit

end Cabinet
