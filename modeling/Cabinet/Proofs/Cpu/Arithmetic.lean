import Cabinet.Proofs.Board.Cells
import Mathlib.Data.Int.Notation
/-!
# Arithmetic as arithmetic on numbers

What the arithmetic unit makes of two bytes and a carry is said here in terms of the numbers that the
bytes stand for (`AluOp.number`, `AluOp.carryOut`, `AluOp.auxCarryOut`), with a difference as a
difference and not as the sum with a complement. The unit computes these numbers (`Alu.apply_eq`), and
the instructions that use it store them (`Circuit.step_arithmetic`).
-/

namespace Cabinet

/-! ### Flags of a number -/

/-- How many bits of a byte are one. -/
def ones (n : ℕ) : ℕ := (List.range 8).countP fun i => n.testBit i

/-- The flags that tell of a result, beside the two carries. -/
def Flags.telling (n : ℕ) (auxCarry carry : Bool) : Flags where
  sign := 128 ≤ n
  zero := n = 0
  auxCarry := auxCarry
  parity := ones n % 2 = 0
  carry := carry

/-- What holds of the byte of every number below 256 holds of every byte. -/
theorem forall_byte {P : UInt8 → Prop} (h : ∀ n : Fin 256, P (UInt8.ofFin n)) (v : UInt8) : P v := by
  simpa using h v.toFin

theorem and_sign_eq (v : UInt8) : (v &&& 0x80 != 0) = decide (128 ≤ v.toNat) := by
  revert v
  exact forall_byte (by decide +kernel)

theorem evenParity_eq (v : UInt8) : evenParity v = decide (ones v.toNat % 2 = 0) := by
  revert v
  exact forall_byte (by decide +kernel)

theorem Flags.ofResult_eq (f : Flags) (v : UInt8) :
    f.ofResult v = .telling v.toNat f.auxCarry f.carry := by
  have zero : (v == 0) = decide (v.toNat = 0) := by
    rw [Bool.eq_iff_iff, beq_iff_eq, decide_eq_true_eq, ← UInt8.toNat_inj]
    rfl
  rw [ofResult, telling, and_sign_eq, evenParity_eq, zero]

/-! ### Sums and differences -/

theorem toNat_and_fifteen (v : UInt8) : (v &&& 0x0F).toNat = v.toNat % 16 := by
  rw [UInt8.toNat_and]
  exact Nat.and_two_pow_sub_one_eq_mod v.toNat 4

theorem toNat_complement (v : UInt8) : (~~~v).toNat = 255 - v.toNat := by
  revert v
  exact forall_byte (by decide +kernel)

namespace Alu

/-- **A sum of bytes is the sum of their numbers**, as far as it fits, and the carries say whether it
does. -/
theorem sum_eq (x y : UInt8) (carry : Bool) :
    sum x y carry = (UInt8.ofNat (x.toNat + y.toNat + carry.toNat),
      .telling ((x.toNat + y.toNat + carry.toNat) % 256)
        (15 < x.toNat % 16 + y.toNat % 16 + carry.toNat)
        (255 < x.toNat + y.toNat + carry.toNat)) := by
  have hx := x.toNat_lt
  have hy := y.toNat_lt
  have hc : carry.toNat ≤ 1 := carry.toNat_le
  have wide : carry.toUInt16.toNat = carry.toNat := by cases carry <;> rfl
  have narrow : carry.toUInt8.toNat = carry.toNat := by cases carry <;> rfl
  have exact : (x.toUInt16 + y.toUInt16 + carry.toUInt16).toNat =
      x.toNat + y.toNat + carry.toNat := by
    rw [UInt16.toNat_add, UInt16.toNat_add, wide, UInt8.toNat_toUInt16, UInt8.toNat_toUInt16]
    omega
  have low : ((x &&& 0x0F) + (y &&& 0x0F) + carry.toUInt8).toNat =
      x.toNat % 16 + y.toNat % 16 + carry.toNat := by
    rw [UInt8.toNat_add, UInt8.toNat_add, toNat_and_fifteen, toNat_and_fifteen, narrow]
    omega
  have value : (x.toUInt16 + y.toUInt16 + carry.toUInt16).toUInt8 =
      UInt8.ofNat (x.toNat + y.toNat + carry.toNat) := by
    rw [← UInt8.toNat_inj, UInt16.toNat_toUInt8, exact, UInt8.toNat_ofNat']
  have auxCarry : ((x &&& 0x0F) + (y &&& 0x0F) + carry.toUInt8 > 0x0F) ↔
      15 < x.toNat % 16 + y.toNat % 16 + carry.toNat := by
    rw [← low]
    exact UInt8.lt_iff_toNat_lt
  have carryOut : (x.toUInt16 + y.toUInt16 + carry.toUInt16 > 0xFF) ↔
      255 < x.toNat + y.toNat + carry.toNat := by
    rw [← exact]
    exact UInt16.lt_iff_toNat_lt
  simp only [sum, value, Flags.ofResult_eq, auxCarry, carryOut, UInt8.toNat_ofNat']
  rfl

/-- **A difference of bytes is the difference of their numbers**, modulo 256, and the carry says whether
something was borrowed. -/
theorem difference_eq (x y : UInt8) (borrow : Bool) :
    difference x y borrow =
      (UInt8.ofNat (((x.toNat : ℤ) - y.toNat - borrow.toNat) % 256).toNat,
        .telling (((x.toNat : ℤ) - y.toNat - borrow.toNat) % 256).toNat
          (y.toNat % 16 + borrow.toNat ≤ x.toNat % 16) (x.toNat < y.toNat + borrow.toNat)) := by
  have hx := x.toNat_lt
  have hy := y.toNat_lt
  have hb : (!borrow).toNat = 1 - borrow.toNat := by cases borrow <;> rfl
  have hb' : borrow.toNat ≤ 1 := borrow.toNat_le
  -- The sum with the complement exceeds the difference by 256, which a byte does not show.
  have value : (((x.toNat : ℤ) - y.toNat - borrow.toNat) % 256).toNat =
      (x.toNat + (255 - y.toNat) + (1 - borrow.toNat)) % 256 := by omega
  have auxCarry : 15 < x.toNat % 16 + (255 - y.toNat) % 16 + (1 - borrow.toNat) ↔
      y.toNat % 16 + borrow.toNat ≤ x.toNat % 16 := by omega
  have carry : ¬255 < x.toNat + (255 - y.toNat) + (1 - borrow.toNat) ↔
      x.toNat < y.toNat + borrow.toNat := by omega
  have low : UInt8.ofNat ((x.toNat + (255 - y.toNat) + (1 - borrow.toNat)) % 256) =
      UInt8.ofNat (x.toNat + (255 - y.toNat) + (1 - borrow.toNat)) := UInt8.ofNat_mod_size
  simp only [difference, sum_eq, toNat_complement, hb, value, auxCarry, low, Flags.telling, ← carry,
    decide_not]

end Alu

/-! ### The operations of the unit -/

namespace AluOp

/-- The carry or borrow that goes into an operation. -/
def carryIn (carry : Bool) : AluOp → ℕ
  | .adc | .sbb => carry.toNat
  | _ => 0

/-- The byte that an operation computes, as a number. -/
def number (x v c : ℕ) : AluOp → ℕ
  | .add | .adc => (x + v + c) % 256
  | .sub | .sbb | .cmp => (((x : ℤ) - v - c) % 256).toNat
  | .ana => x &&& v
  | .xra => x ^^^ v
  | .ora => x ||| v

/-- What an operation leaves in the accumulator, as a number: a comparison leaves what was there. -/
def kept (x v c : ℕ) : AluOp → ℕ
  | .cmp => x
  | op => op.number x v c

/-- A sum did not fit, or something was borrowed. -/
def carryOut (x v c : ℕ) : AluOp → Bool
  | .add | .adc => 255 < x + v + c
  | .sub | .sbb | .cmp => x < v + c
  | .ana | .xra | .ora => false

/-- The sum of the low halves did not fit, or nothing was borrowed from the high half. -/
def auxCarryOut (x v c : ℕ) : AluOp → Bool
  | .add | .adc => 15 < x % 16 + v % 16 + c
  | .sub | .sbb | .cmp => v % 16 + c ≤ x % 16
  | .ana => (x ||| v).testBit 3
  | .xra | .ora => false

/-- The flags that an operation leaves. -/
def flags (op : AluOp) (x v c : ℕ) : Flags :=
  .telling (op.number x v c) (op.auxCarryOut x v c) (op.carryOut x v c)

end AluOp

namespace Alu

theorem bitwiseFlags_eq (v : UInt8) (auxCarry : Bool) :
    bitwiseFlags v auxCarry = .telling v.toNat auxCarry false := by
  rw [bitwiseFlags, Flags.ofResult_eq]
  rfl

theorem and_eight_eq (v : UInt8) : (v &&& 0x08 != 0) = v.toNat.testBit 3 := by
  revert v
  exact forall_byte (by decide +kernel)

/-- **The unit computes the numbers that it should.** -/
theorem apply_eq (op : AluOp) (x v : UInt8) (carry : Bool) :
    apply op x v carry = (UInt8.ofNat (op.kept x.toNat v.toNat (op.carryIn carry)),
      op.flags x.toNat v.toNat (op.carryIn carry)) := by
  cases op with
  | add | adc =>
    rw [apply, sum_eq]
    exact Prod.ext UInt8.ofNat_mod_size.symm rfl
  | sub | sbb =>
    rw [apply, difference_eq]
    rfl
  | cmp =>
    rw [apply, difference_eq]
    exact Prod.ext UInt8.ofNat_toNat.symm rfl
  | ana =>
    have value : x &&& v = UInt8.ofNat (x.toNat &&& v.toNat) := by
      rw [← UInt8.toNat_and, UInt8.ofNat_toNat]
    rw [apply, bitwiseFlags_eq, and_eight_eq, UInt8.toNat_and, UInt8.toNat_or]
    exact Prod.ext value rfl
  | xra =>
    have value : x ^^^ v = UInt8.ofNat (x.toNat ^^^ v.toNat) := by
      rw [← UInt8.toNat_xor, UInt8.ofNat_toNat]
    rw [apply, bitwiseFlags_eq, UInt8.toNat_xor]
    exact Prod.ext value rfl
  | ora =>
    have value : x ||| v = UInt8.ofNat (x.toNat ||| v.toNat) := by
      rw [← UInt8.toNat_or, UInt8.ofNat_toNat]
    rw [apply, bitwiseFlags_eq, UInt8.toNat_or]
    exact Prod.ext value rfl

/-- One more is the sum with one, but for the carry. -/
theorem increment_eq (x : UInt8) (f : Flags) :
    increment x f = (UInt8.ofNat (AluOp.add.number x.toNat 1 0),
      { AluOp.add.flags x.toNat 1 0 with carry := f.carry }) := by
  have value : (x + 1).toNat = (x.toNat + 1) % 256 := UInt8.toNat_add x 1
  have auxCarry : (x + 1) &&& 0x0F = 0x00 ↔ 15 < x.toNat % 16 + 1 % 16 + 0 := by
    rw [← UInt8.toNat_inj, toNat_and_fifteen, value]
    show (x.toNat + 1) % 256 % 16 = 0 ↔ _
    omega
  have low : x + 1 = UInt8.ofNat (AluOp.add.number x.toNat 1 0) := by
    rw [← UInt8.toNat_inj, value, UInt8.toNat_ofNat', AluOp.number]
    omega
  rw [increment, Flags.ofResult_eq, value, beq_eq_decide, decide_eq_decide.2 auxCarry]
  exact Prod.ext low rfl

/-- One less is the difference with one, but for the carry. -/
theorem decrement_eq (x : UInt8) (f : Flags) :
    decrement x f = (UInt8.ofNat (AluOp.sub.number x.toNat 1 0),
      { AluOp.sub.flags x.toNat 1 0 with carry := f.carry }) := by
  have hx := x.toNat_lt
  have value : (x - 1).toNat = AluOp.sub.number x.toNat 1 0 := by
    rw [UInt8.toNat_sub, AluOp.number]
    show (256 - 1 + x.toNat) % 256 = _
    omega
  have auxCarry : ¬(x - 1) &&& 0x0F = 0x0F ↔ 1 % 16 + 0 ≤ x.toNat % 16 := by
    rw [← UInt8.toNat_inj, toNat_and_fifteen, value, AluOp.number]
    show ¬_ = 15 ↔ _
    omega
  have low : x - 1 = UInt8.ofNat (AluOp.sub.number x.toNat 1 0) := by
    rw [← value, UInt8.ofNat_toNat]
  have borrowed : (((x - 1) &&& 0x0F) != 0x0F) = decide (1 % 16 + 0 ≤ x.toNat % 16) := by
    rw [bne, beq_eq_decide, ← decide_not, decide_eq_decide.2 auxCarry]
  rw [decrement, Flags.ofResult_eq, value, borrowed]
  exact Prod.ext low rfl

end Alu

namespace Cpu

/-- The processor after an operation on the accumulator and the number `v`. -/
def calculated (cpu : Cpu) (op : AluOp) (v : ℕ) : Cpu :=
  { cpu with
    a := UInt8.ofNat (op.kept cpu.a.toNat v (op.carryIn cpu.flags.carry))
    flags := op.flags cpu.a.toNat v (op.carryIn cpu.flags.carry) }

theorem alu_eq (cpu : Cpu) (op : AluOp) (v : UInt8) : cpu.alu op v = cpu.calculated op v.toNat := by
  rw [alu, Alu.apply_eq]
  rfl

/-- The processor after the number `n` has been added to HL. -/
def summed (cpu : Cpu) (n : ℕ) : Cpu :=
  { cpu.setHl (UInt16.ofNat ((cpu.hl.toNat + n) % 65536)) with
    flags := { cpu.flags with carry := 65535 < cpu.hl.toNat + n } }

theorem dad_eq (cpu : Cpu) (v : UInt16) : cpu.dad v = cpu.summed v.toNat := by
  have hx := cpu.hl.toNat_lt
  have hy := v.toNat_lt
  have exact : (cpu.hl.toUInt32 + v.toUInt32).toNat = cpu.hl.toNat + v.toNat := by
    rw [UInt32.toNat_add, UInt16.toNat_toUInt32, UInt16.toNat_toUInt32]
    omega
  have value : (cpu.hl.toUInt32 + v.toUInt32).toUInt16 =
      UInt16.ofNat ((cpu.hl.toNat + v.toNat) % 65536) := by
    rw [← UInt16.toNat_inj, UInt32.toNat_toUInt16, exact, UInt16.toNat_ofNat', Nat.mod_mod]
  have carry : cpu.hl.toUInt32 + v.toUInt32 > 0xFFFF ↔ 65535 < cpu.hl.toNat + v.toNat := by
    rw [← exact]
    exact UInt32.lt_iff_toNat_lt
  rw [dad, value, decide_eq_decide.2 carry]
  rfl

end Cpu

/-! ### The instructions -/

namespace Circuit

variable {σ : Type} [Bus σ]

/-- A byte operand of the next instruction, and the bus when it has been taken: a register as it is, or
the byte at HL, which is read when the first byte of the instruction has been. -/
def source (w : Circuit σ) : Operand → UInt8 × σ
  | .reg r => (w.cpu.reg r, w.fetch.2.bus)
  | .mem => Bus.read w.cpu.hl w.fetch.2.bus

/-- The operand byte of the next instruction, and the bus when it has been read. -/
def immediate (w : Circuit σ) : UInt8 × σ := Bus.read (w.cpu.pc + 1) w.fetch.2.bus

/-- The circuit after a byte operand has been replaced by what an operation makes of it and one. The
flags are those of the operation, but for the carry. -/
def counted (w : Circuit σ) (op : AluOp) (dst : Operand) : Circuit σ :=
  let v := (w.source dst).1.toNat
  let flags := { op.flags v 1 0 with carry := w.cpu.flags.carry }
  (Circuit.mk { w.cpu.advance 1 with flags } (w.source dst).2).setOperand dst
    (UInt8.ofNat (op.number v 1 0))

theorem operand_fetch (w : Circuit σ) (o : Operand) :
    w.fetch.2.operand o = ((w.source o).1, ⟨w.cpu.advance 1, (w.source o).2⟩) := by
  cases o with
  | reg r => cases r <;> rfl
  | mem => rfl

theorem fetchOperand_one (w : Circuit σ) :
    w.fetch.2.fetchOperand 1 =
      (w.immediate.1.toUInt16, ⟨w.cpu.advance 2, w.immediate.2⟩) := by
  have behind : w.cpu.pc + 1 + 1 = w.cpu.pc + 2 := UInt16.add_assoc ..
  show (_, Circuit.mk { w.cpu with pc := w.cpu.pc + 1 + 1 } _) = _
  rw [behind]
  rfl

section Steps

variable {w : Circuit σ} (running : w.cpu.halted = false)
include running

theorem step_alu {op : AluOp} {src : Operand} (h : w.opcode = 0x80 + 8 * op.field + src.field) :
    w.step.2 = ⟨(w.cpu.advance 1).calculated op (w.source src).1.toNat, (w.source src).2⟩ := by
  rw [step_of_opcode running (h ▸ Instruction.ofByte_alu op src), ← Cpu.alu_eq]
  show exec (.alu op src) 0 w.fetch.2 = _
  rw [exec, operand_fetch]
  rfl

theorem step_aluImmediate {op : AluOp} (h : w.opcode = 0xC6 + 8 * op.field) :
    w.step.2 = ⟨(w.cpu.advance 2).calculated op w.immediate.1.toNat, w.immediate.2⟩ := by
  have low : loByte w.immediate.1.toUInt16 = w.immediate.1 := UInt8.toUInt8_toUInt16 _
  rw [step_of_opcode running (h ▸ Instruction.ofByte_aluImmediate op), ← Cpu.alu_eq]
  show exec (.aluImmediate op) (w.fetch.2.fetchOperand 1).1 (w.fetch.2.fetchOperand 1).2 = _
  rw [fetchOperand_one, exec, low]
  rfl

theorem step_inr {dst : Operand} (h : w.opcode = 0x04 + 8 * dst.field) :
    w.step.2 = w.counted .add dst := by
  rw [step_of_opcode running (h ▸ Instruction.ofByte_inr dst)]
  show exec (.inr dst) 0 w.fetch.2 = _
  rw [exec, operand_fetch]
  simp only [Alu.increment_eq]
  rfl

theorem step_dcr {dst : Operand} (h : w.opcode = 0x05 + 8 * dst.field) :
    w.step.2 = w.counted .sub dst := by
  rw [step_of_opcode running (h ▸ Instruction.ofByte_dcr dst)]
  show exec (.dcr dst) 0 w.fetch.2 = _
  rw [exec, operand_fetch]
  simp only [Alu.decrement_eq]
  rfl

theorem step_dad {src : Pair} (h : w.opcode = 0x09 + 16 * src.field) :
    w.step.2 = ⟨(w.cpu.advance 1).summed (w.cpu.pair src).toNat, w.fetch.2.bus⟩ := by
  have moved : (w.cpu.advance 1).pair src = w.cpu.pair src := by cases src <;> rfl
  rw [step_of_opcode running (h ▸ Instruction.ofByte_dad src)]
  show Circuit.mk ((w.cpu.advance 1).dad ((w.cpu.advance 1).pair src)) w.fetch.2.bus = _
  rw [Cpu.dad_eq, moved]

/-- **Arithmetic is arithmetic on numbers.** A step of an instruction of the arithmetic unit, on any
processor and bus, stores what numbers say that it should: the sum, the difference or the bits of the
accumulator and a byte operand or the operand byte, a byte operand and one, or the sum of two pairs. The
operands are those that the instruction finds, and nothing else of the processor is changed but the
program counter. -/
theorem step_arithmetic :
    (∀ op src, w.opcode = 0x80 + 8 * op.field + src.field →
      w.step.2 = ⟨(w.cpu.advance 1).calculated op (w.source src).1.toNat, (w.source src).2⟩) ∧
    (∀ op, w.opcode = 0xC6 + 8 * op.field →
      w.step.2 = ⟨(w.cpu.advance 2).calculated op w.immediate.1.toNat, w.immediate.2⟩) ∧
    (∀ dst, w.opcode = 0x04 + 8 * dst.field → w.step.2 = w.counted .add dst) ∧
    (∀ dst, w.opcode = 0x05 + 8 * dst.field → w.step.2 = w.counted .sub dst) ∧
    (∀ src, w.opcode = 0x09 + 16 * src.field →
      w.step.2 = ⟨(w.cpu.advance 1).summed (w.cpu.pair src).toNat, w.fetch.2.bus⟩) := by
  refine ⟨?_, ?_, ?_, ?_, ?_⟩
  · intro op src h
    exact step_alu running h
  · intro op h
    exact step_aluImmediate running h
  · intro dst h
    exact step_inr running h
  · intro dst h
    exact step_dcr running h
  · intro src h
    exact step_dad running h

end Steps

/-- A processor with the carry set, before SBB A. -/
def borrowing : Circuit Board :=
  ⟨{ a := 0x35, flags := { carry := true } }, .flat [0x9F]⟩

/-- What is left of a byte that is taken from itself with a borrow. -/
theorem borrowing_step :
    borrowing.cpu.halted = false ∧
      borrowing.opcode = 0x80 + 8 * AluOp.sbb.field + (Operand.reg .a).field ∧
      borrowing.step.2.cpu =
        { a := 0xFF, flags := { sign := true, parity := true, carry := true }, pc := 1 } := by
  have opcode : borrowing.opcode = 0x80 + 8 * AluOp.sbb.field + (Operand.reg .a).field :=
    opcode_flat _ _
  refine ⟨rfl, opcode, ?_⟩
  rw [(step_arithmetic (w := borrowing) rfl).1 .sbb (.reg .a) opcode]
  decide

end Circuit

end Cabinet
