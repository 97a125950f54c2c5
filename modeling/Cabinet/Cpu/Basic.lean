import Cabinet.Word
import Cabinet.Cpu.Flags
/-!
# The register file

`Cpu` is the complete state of the processor, an 8080 that executes whole instructions: seven byte
registers, the flags, the stack pointer and program counter, the interrupt-enable and halt flip-flops,
and the cycles of an acknowledged interrupt that no burst has been charged for yet. Registers are
named by `Reg`, pairs by `Pair`, and the pairs that PUSH and POP move by `StackPair`.
-/

namespace Cabinet

/-- A byte register. -/
inductive Reg where
  | b | c | d | e | h | l | a
deriving DecidableEq, Inhabited

/-- The register that a three-bit operand field names; field 6 is memory and names none. -/
def Reg.ofField? : Nat → Option Reg
  | 0 => some .b
  | 1 => some .c
  | 2 => some .d
  | 3 => some .e
  | 4 => some .h
  | 5 => some .l
  | 7 => some .a
  | _ => none

/-- A sixteen-bit register operand. -/
inductive Pair where
  | bc | de | hl | sp
deriving DecidableEq, Inhabited

/-- A sixteen-bit operand of PUSH and POP: `psw` is the accumulator over the flag byte. -/
inductive StackPair where
  | bc | de | hl | psw
deriving DecidableEq, Inhabited

/-- The state of the processor. -/
structure Cpu where
  /-- Accumulator. -/
  a : UInt8 := 0
  /-- Register B. -/
  b : UInt8 := 0
  /-- Register C. -/
  c : UInt8 := 0
  /-- Register D. -/
  d : UInt8 := 0
  /-- Register E. -/
  e : UInt8 := 0
  /-- Register H. -/
  h : UInt8 := 0
  /-- Register L. -/
  l : UInt8 := 0
  /-- Condition flags. -/
  flags : Flags := {}
  /-- Stack pointer. -/
  sp : UInt16 := 0
  /-- Program counter. -/
  pc : UInt16 := 0
  /-- Interrupts are enabled. -/
  inte : Bool := false
  /-- HLT has been executed, and no interrupt has come since. -/
  halted : Bool := false
  /-- Cycles of an interrupt acknowledge that have not been charged yet. -/
  pending : UInt32 := 0
deriving DecidableEq, Inhabited

namespace Cpu

/-- The processor after a reset: registers cleared, interrupts disabled, fetching from `vector`. -/
def atReset (vector : UInt16) : Cpu := { pc := vector }

/-- The contents of a byte register. -/
@[inline] def reg (cpu : Cpu) : Reg → UInt8
  | .b => cpu.b
  | .c => cpu.c
  | .d => cpu.d
  | .e => cpu.e
  | .h => cpu.h
  | .l => cpu.l
  | .a => cpu.a

/-- Sets a byte register. -/
@[inline] def setReg (cpu : Cpu) (r : Reg) (v : UInt8) : Cpu :=
  match r with
  | .b => { cpu with b := v }
  | .c => { cpu with c := v }
  | .d => { cpu with d := v }
  | .e => { cpu with e := v }
  | .h => { cpu with h := v }
  | .l => { cpu with l := v }
  | .a => { cpu with a := v }

/-- Registers B and C as a word. -/
@[inline] def bc (cpu : Cpu) : UInt16 := word cpu.b cpu.c

/-- Registers D and E as a word. -/
@[inline] def de (cpu : Cpu) : UInt16 := word cpu.d cpu.e

/-- Registers H and L as a word. -/
@[inline] def hl (cpu : Cpu) : UInt16 := word cpu.h cpu.l

/-- The processor status word: the accumulator over the flag byte. -/
@[inline] def psw (cpu : Cpu) : UInt16 := word cpu.a cpu.flags.toByte

/-- Sets B and C from a word. -/
@[inline] def setBc (cpu : Cpu) (w : UInt16) : Cpu := { cpu with b := hiByte w, c := loByte w }

/-- Sets D and E from a word. -/
@[inline] def setDe (cpu : Cpu) (w : UInt16) : Cpu := { cpu with d := hiByte w, e := loByte w }

/-- Sets H and L from a word. -/
@[inline] def setHl (cpu : Cpu) (w : UInt16) : Cpu := { cpu with h := hiByte w, l := loByte w }

/-- Sets the accumulator and the flags from a status word. -/
@[inline] def setPsw (cpu : Cpu) (w : UInt16) : Cpu :=
  { cpu with a := hiByte w, flags := .ofByte (loByte w) }

/-- The contents of a register pair. -/
@[inline] def pair (cpu : Cpu) : Pair → UInt16
  | .bc => cpu.bc
  | .de => cpu.de
  | .hl => cpu.hl
  | .sp => cpu.sp

/-- Sets a register pair. -/
@[inline] def setPair (cpu : Cpu) (p : Pair) (w : UInt16) : Cpu :=
  match p with
  | .bc => cpu.setBc w
  | .de => cpu.setDe w
  | .hl => cpu.setHl w
  | .sp => { cpu with sp := w }

/-- The word that PUSH stores. -/
@[inline] def stackPair (cpu : Cpu) : StackPair → UInt16
  | .bc => cpu.bc
  | .de => cpu.de
  | .hl => cpu.hl
  | .psw => cpu.psw

/-- Sets what POP loads. -/
@[inline] def setStackPair (cpu : Cpu) (p : StackPair) (w : UInt16) : Cpu :=
  match p with
  | .bc => cpu.setBc w
  | .de => cpu.setDe w
  | .hl => cpu.setHl w
  | .psw => cpu.setPsw w

/-- Advances the program counter by `n`, modulo the address range. -/
@[inline] def advance (cpu : Cpu) (n : UInt16) : Cpu := { cpu with pc := cpu.pc + n }

/-! ### Snapshots -/

/-- The processor state as a record of plain numbers, whose flag byte and pending cycles may hold
values that no running processor has. -/
structure Snapshot where
  /-- Accumulator. -/
  a : UInt8 := 0
  /-- Register B. -/
  b : UInt8 := 0
  /-- Register C. -/
  c : UInt8 := 0
  /-- Register D. -/
  d : UInt8 := 0
  /-- Register E. -/
  e : UInt8 := 0
  /-- Register H. -/
  h : UInt8 := 0
  /-- Register L. -/
  l : UInt8 := 0
  /-- Flag byte. -/
  f : UInt8 := 0
  /-- Stack pointer. -/
  sp : UInt16 := 0
  /-- Program counter. -/
  pc : UInt16 := 0
  /-- Interrupts are enabled. -/
  inte : Bool := false
  /-- The processor is halted. -/
  halted : Bool := false
  /-- Cycles of an interrupt acknowledge that have not been charged yet. -/
  pending : UInt32 := 0
deriving DecidableEq, Inhabited

/-- The state as a record. -/
def snapshot (cpu : Cpu) : Snapshot where
  a := cpu.a
  b := cpu.b
  c := cpu.c
  d := cpu.d
  e := cpu.e
  h := cpu.h
  l := cpu.l
  f := cpu.flags.toByte
  sp := cpu.sp
  pc := cpu.pc
  inte := cpu.inte
  halted := cpu.halted
  pending := cpu.pending

/-- The processor in the recorded state; of the flag byte only the flags are taken. -/
def ofSnapshot (s : Snapshot) : Cpu where
  a := s.a
  b := s.b
  c := s.c
  d := s.d
  e := s.e
  h := s.h
  l := s.l
  flags := .ofByte s.f
  sp := s.sp
  pc := s.pc
  inte := s.inte
  halted := s.halted
  pending := s.pending

@[simp] theorem ofSnapshot_snapshot (cpu : Cpu) : ofSnapshot cpu.snapshot = cpu := by
  simp [ofSnapshot, snapshot]

/-- What a round trip through the processor does to a record: only the flag byte is normalised. -/
theorem snapshot_ofSnapshot (s : Snapshot) :
    (ofSnapshot s).snapshot = { s with f := (s.f &&& 0xD5) ||| 0x02 } := by
  simp [ofSnapshot, snapshot, Flags.toByte_ofByte]

end Cpu

end Cabinet
