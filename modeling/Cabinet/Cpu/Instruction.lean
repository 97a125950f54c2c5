import Cabinet.Cpu.Alu
/-!
# Instructions

`Instruction` is what the first byte of an instruction of the 8080 says; the one or two operand bytes
that may follow are no part of it. Every byte is an instruction (`decode`): the bytes that the
manufacturer leaves undocumented are further forms of NOP, JMP, CALL and RET. How many operand bytes
follow (`operandBytes`) and how many cycles are charged (`cycles`) are functions of the instruction,
the latter also of the flags, which decide whether a conditional call or return is taken.
-/

namespace Cabinet

/-- A byte operand: a register, or memory at the address in HL. -/
inductive Operand where
  | reg (r : Reg)
  | mem
deriving DecidableEq, Inhabited

/-- The operand that a three-bit field names. -/
def Operand.ofField (n : Nat) : Operand :=
  match Reg.ofField? n with
  | some r => .reg r
  | none => .mem

/-- A pair that STAX and LDAX address memory with. -/
inductive IndexPair where
  | bc | de
deriving DecidableEq, Inhabited

/-- A condition of a jump, call or return. -/
inductive Cond where
  | nz | z | nc | c | po | pe | p | m
deriving DecidableEq, Inhabited

namespace Cond

/-- The condition that a three-bit field names. -/
def ofField : Nat → Cond
  | 0 => .nz
  | 1 => .z
  | 2 => .nc
  | 3 => .c
  | 4 => .po
  | 5 => .pe
  | 6 => .p
  | _ => .m

/-- Whether the flags meet the condition. -/
@[inline] def holds (f : Flags) : Cond → Bool
  | .nz => !f.zero
  | .z => f.zero
  | .nc => !f.carry
  | .c => f.carry
  | .po => !f.parity
  | .pe => f.parity
  | .p => !f.sign
  | .m => f.sign

end Cond

/-- The arithmetic operation that a three-bit field names. -/
def AluOp.ofField : Nat → AluOp
  | 0 => .add
  | 1 => .adc
  | 2 => .sub
  | 3 => .sbb
  | 4 => .ana
  | 5 => .xra
  | 6 => .ora
  | _ => .cmp

/-- The register pair that a two-bit field names. -/
def Pair.ofField : Nat → Pair
  | 0 => .bc
  | 1 => .de
  | 2 => .hl
  | _ => .sp

/-- The pair that a two-bit field names in PUSH and POP. -/
def StackPair.ofField : Nat → StackPair
  | 0 => .bc
  | 1 => .de
  | 2 => .hl
  | _ => .psw

/-- An instruction without its operand bytes. -/
inductive Instruction where
  /-- Does nothing. -/
  | nop
  /-- Stops until an interrupt. -/
  | hlt
  /-- Copies a byte operand. -/
  | mov (dst src : Operand)
  /-- Sets a byte operand to the operand byte. -/
  | mvi (dst : Operand)
  /-- Sets a pair to the operand word. -/
  | lxi (dst : Pair)
  /-- Stores the accumulator at the address in a pair. -/
  | stax (pair : IndexPair)
  /-- Loads the accumulator from the address in a pair. -/
  | ldax (pair : IndexPair)
  /-- Stores HL at the operand address. -/
  | shld
  /-- Loads HL from the operand address. -/
  | lhld
  /-- Stores the accumulator at the operand address. -/
  | sta
  /-- Loads the accumulator from the operand address. -/
  | lda
  /-- Exchanges HL and DE. -/
  | xchg
  /-- Reads the port that the operand byte names into the accumulator. -/
  | input
  /-- Writes the accumulator to the port that the operand byte names. -/
  | output
  /-- Arithmetic on the accumulator and a byte operand. -/
  | alu (op : AluOp) (src : Operand)
  /-- Arithmetic on the accumulator and the operand byte. -/
  | aluImmediate (op : AluOp)
  /-- Adds one to a byte operand. -/
  | inr (dst : Operand)
  /-- Subtracts one from a byte operand. -/
  | dcr (dst : Operand)
  /-- Adds one to a pair. -/
  | inx (dst : Pair)
  /-- Subtracts one from a pair. -/
  | dcx (dst : Pair)
  /-- Adds a pair to HL. -/
  | dad (src : Pair)
  /-- Rotates the accumulator left. -/
  | rlc
  /-- Rotates the accumulator right. -/
  | rrc
  /-- Rotates the accumulator left through the carry. -/
  | ral
  /-- Rotates the accumulator right through the carry. -/
  | rar
  /-- Decimal adjustment of the accumulator. -/
  | daa
  /-- Complements the accumulator. -/
  | cma
  /-- Sets the carry. -/
  | stc
  /-- Complements the carry. -/
  | cmc
  /-- Jumps to the operand address. -/
  | jmp
  /-- Jumps to the operand address if a condition holds. -/
  | jcc (cond : Cond)
  /-- Calls the operand address. -/
  | call
  /-- Calls the operand address if a condition holds. -/
  | ccc (cond : Cond)
  /-- Returns to the address on the stack. -/
  | ret
  /-- Returns to the address on the stack if a condition holds. -/
  | rcc (cond : Cond)
  /-- Calls one of eight fixed addresses. -/
  | rst (n : Fin 8)
  /-- Jumps to the address in HL. -/
  | pchl
  /-- Pushes a pair. -/
  | push (src : StackPair)
  /-- Pops a pair. -/
  | pop (dst : StackPair)
  /-- Exchanges HL and the word on top of the stack. -/
  | xthl
  /-- Copies HL to the stack pointer. -/
  | sphl
  /-- Disables interrupts. -/
  | di
  /-- Enables interrupts, at once. -/
  | ei
deriving DecidableEq, Inhabited

namespace Instruction

/-- Instructions whose two top bits are zero. -/
def ofLowQuarter (y z : Nat) : Instruction :=
  match z with
  | 0 => .nop
  | 1 => if y % 2 = 0 then .lxi (.ofField (y / 2)) else .dad (.ofField (y / 2))
  | 2 =>
    match y with
    | 0 => .stax .bc
    | 1 => .ldax .bc
    | 2 => .stax .de
    | 3 => .ldax .de
    | 4 => .shld
    | 5 => .lhld
    | 6 => .sta
    | _ => .lda
  | 3 => if y % 2 = 0 then .inx (.ofField (y / 2)) else .dcx (.ofField (y / 2))
  | 4 => .inr (.ofField y)
  | 5 => .dcr (.ofField y)
  | 6 => .mvi (.ofField y)
  | _ =>
    match y with
    | 0 => .rlc
    | 1 => .rrc
    | 2 => .ral
    | 3 => .rar
    | 4 => .daa
    | 5 => .cma
    | 6 => .stc
    | _ => .cmc

/-- Instructions whose two top bits are one. -/
def ofHighQuarter (y z : Nat) : Instruction :=
  match z with
  | 0 => .rcc (.ofField y)
  | 1 =>
    match y with
    | 1 | 3 => .ret
    | 5 => .pchl
    | 7 => .sphl
    | _ => .pop (.ofField (y / 2))
  | 2 => .jcc (.ofField y)
  | 3 =>
    match y with
    | 0 | 1 => .jmp
    | 2 => .output
    | 3 => .input
    | 4 => .xthl
    | 5 => .xchg
    | 6 => .di
    | _ => .ei
  | 4 => .ccc (.ofField y)
  | 5 => if y % 2 = 0 then .push (.ofField (y / 2)) else .call
  | 6 => .aluImmediate (.ofField y)
  | _ => .rst (Fin.ofNat 8 y)

/-- The instruction that a byte is, by its fields of two, three and three bits. -/
def decode (byte : UInt8) : Instruction :=
  let y := byte.toNat / 8 % 8
  let z := byte.toNat % 8
  match byte.toNat / 64 with
  | 0 => ofLowQuarter y z
  | 1 => if y = 6 ∧ z = 6 then .hlt else .mov (.ofField y) (.ofField z)
  | 2 => .alu (.ofField y) (.ofField z)
  | _ => ofHighQuarter y z

/-- All instructions in the order of their bytes. -/
def table : Array Instruction := Array.ofFn fun n : Fin 256 => decode (UInt8.ofFin n)

/-- The instruction that a byte is, looked up. -/
@[inline] def ofByte (byte : UInt8) : Instruction :=
  have h : byte.toNat < table.size := by simpa [table] using byte.toNat_lt
  table[byte.toNat]

/-- How many operand bytes follow the first byte. -/
@[inline] def operandBytes : Instruction → Nat
  | .mvi _ | .aluImmediate _ | .input | .output => 1
  | .lxi _ | .shld | .lhld | .sta | .lda | .jmp | .jcc _ | .call | .ccc _ => 2
  | _ => 0

/-- How many bytes the instruction takes. -/
def length (i : Instruction) : Nat := 1 + i.operandBytes

/-- The cycles charged when the instruction is executed under the given flags. -/
@[inline] def cycles (f : Flags) : Instruction → UInt32
  | .nop | .xchg | .rlc | .rrc | .ral | .rar | .daa | .cma | .stc | .cmc | .di | .ei => 4
  | .alu _ .mem | .hlt | .aluImmediate _ | .stax _ | .ldax _ => 7
  | .alu _ _ => 4
  | .mov .mem _ | .mov _ .mem => 7
  | .mov _ _ => 5
  | .mvi .mem => 10
  | .mvi _ => 7
  | .inr .mem | .dcr .mem => 10
  | .inr _ | .dcr _ | .inx _ | .dcx _ | .pchl | .sphl => 5
  | .lxi _ | .input | .output | .dad _ | .jmp | .jcc _ | .ret | .pop _ => 10
  | .push _ | .rst _ => 11
  | .sta | .lda => 13
  | .shld | .lhld => 16
  | .call => 17
  | .ccc cond => if cond.holds f then 17 else 11
  | .rcc cond => if cond.holds f then 11 else 5
  | .xthl => 18

theorem ofByte_eq_decode (byte : UInt8) : ofByte byte = decode byte := by
  simp [ofByte, table]

theorem four_le_cycles (f : Flags) (i : Instruction) : 4 ≤ i.cycles f := by
  cases i <;> simp only [cycles] <;> (repeat' split) <;> decide

theorem cycles_le_eighteen (f : Flags) (i : Instruction) : i.cycles f ≤ 18 := by
  cases i <;> simp only [cycles] <;> (repeat' split) <;> decide

end Instruction

end Cabinet
