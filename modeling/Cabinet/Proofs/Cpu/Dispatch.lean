import Cabinet.Proofs.Cpu.Arithmetic
import Cabinet.Proofs.Cpu.Encoding
/-!
# Decoding by patterns

The bytes of instructions have patterns: some bits are fixed, the others are fields that name an operand,
a pair, a condition or an operation. A decoder may go through the patterns in an order, take the first one
that fits, and look its fields up. Then a byte may have no pattern, an earlier pattern may hide a later
one, and a field may name nothing, as the operand that is memory names no register. None of this happens:
whatever the byte is, a pattern fits, every field of it names something, and the instruction is the one
of `Instruction.decode` (`Instruction.dispatch?_eq_some`). The order matters for HLT alone, whose byte has
the pattern of copying from memory to memory (`Instruction.length_filter_fits`).
-/

namespace Cabinet

/-! ### Fields -/

/-- Bits 3 to 5. -/
def upperField (byte : UInt8) : UInt8 := (byte >>> 3) &&& 0x07

/-- Bits 0 to 2. -/
def lowerField (byte : UInt8) : UInt8 := byte &&& 0x07

/-- Bits 4 and 5. -/
def pairField (byte : UInt8) : UInt8 := (byte >>> 4) &&& 0x03

/-- What a field names, among `all` that have a name. -/
def named? {α : Type} (field : α → UInt8) (all : List α) (n : UInt8) : Option α :=
  all.find? (field · == n)

/-- The byte operand that a field names: 6 is memory, and no register. -/
def Operand.named? (n : UInt8) : Option Operand :=
  if n = 6 then some .mem else (Reg.ofField? n.toNat).map .reg

def Pair.named? : UInt8 → Option Pair := Cabinet.named? field [.bc, .de, .hl, .sp]

def StackPair.named? : UInt8 → Option StackPair := Cabinet.named? field [.bc, .de, .hl, .psw]

def Cond.named? : UInt8 → Option Cond := Cabinet.named? field [.nz, .z, .nc, .c, .po, .pe, .p, .m]

def AluOp.named? : UInt8 → Option AluOp :=
  Cabinet.named? field [.add, .adc, .sub, .sbb, .ana, .xra, .ora, .cmp]

/-- The fixed address of RST that a field names. -/
def restart? : UInt8 → Option (Fin 8) := named? (fun n => UInt8.ofNat n) (List.finRange 8)

namespace Instruction

/-! ### Patterns -/

/-- A pattern of bytes, and the instruction of a byte that fits it, if its fields name something. -/
structure Pattern where
  /-- Which bits are fixed. -/
  mask : UInt8
  /-- The fixed bits. -/
  bits : UInt8
  /-- The instruction, from the whole byte. -/
  form : UInt8 → Option Instruction

namespace Pattern

/-- The byte has the fixed bits. -/
def fits (p : Pattern) (byte : UInt8) : Bool := byte &&& p.mask == p.bits

/-- A pattern of one instruction. -/
def of (mask bits : UInt8) (i : Instruction) : Pattern := ⟨mask, bits, fun _ => some i⟩

/-- A pattern of a byte. -/
def byte (bits : UInt8) (i : Instruction) : Pattern := of 0xFF bits i

end Pattern

/-- The patterns in the order in which they are tried. -/
def patterns : List Pattern :=
  [.of 0xC7 0x00 .nop, .byte 0x76 .hlt,
    -- Data transfer
    ⟨0xC0, 0x40, fun byte => (Operand.named? (upperField byte)).bind fun dst =>
      (Operand.named? (lowerField byte)).map (.mov dst)⟩,
    ⟨0xC7, 0x06, fun byte => (Operand.named? (upperField byte)).map .mvi⟩,
    ⟨0xCF, 0x01, fun byte => (Pair.named? (pairField byte)).map .lxi⟩,
    .byte 0x02 (.stax .bc), .byte 0x12 (.stax .de), .byte 0x0A (.ldax .bc), .byte 0x1A (.ldax .de),
    .byte 0x22 .shld, .byte 0x2A .lhld, .byte 0x32 .sta, .byte 0x3A .lda, .byte 0xEB .xchg,
    .byte 0xDB .input, .byte 0xD3 .output,
    -- Arithmetic
    ⟨0xC0, 0x80, fun byte => (AluOp.named? (upperField byte)).bind fun op =>
      (Operand.named? (lowerField byte)).map (.alu op)⟩,
    ⟨0xC7, 0xC6, fun byte => (AluOp.named? (upperField byte)).map .aluImmediate⟩,
    ⟨0xC7, 0x04, fun byte => (Operand.named? (upperField byte)).map .inr⟩,
    ⟨0xC7, 0x05, fun byte => (Operand.named? (upperField byte)).map .dcr⟩,
    ⟨0xCF, 0x03, fun byte => (Pair.named? (pairField byte)).map .inx⟩,
    ⟨0xCF, 0x0B, fun byte => (Pair.named? (pairField byte)).map .dcx⟩,
    ⟨0xCF, 0x09, fun byte => (Pair.named? (pairField byte)).map .dad⟩,
    .byte 0x07 .rlc, .byte 0x0F .rrc, .byte 0x17 .ral, .byte 0x1F .rar, .byte 0x27 .daa,
    .byte 0x2F .cma, .byte 0x37 .stc, .byte 0x3F .cmc,
    -- Branches
    .of 0xF7 0xC3 .jmp,
    ⟨0xC7, 0xC2, fun byte => (Cond.named? (upperField byte)).map .jcc⟩,
    .of 0xCF 0xCD .call,
    ⟨0xC7, 0xC4, fun byte => (Cond.named? (upperField byte)).map .ccc⟩,
    .of 0xEF 0xC9 .ret,
    ⟨0xC7, 0xC0, fun byte => (Cond.named? (upperField byte)).map .rcc⟩,
    ⟨0xC7, 0xC7, fun byte => (restart? (upperField byte)).map .rst⟩,
    .byte 0xE9 .pchl,
    -- Stack and control
    ⟨0xCF, 0xC5, fun byte => (StackPair.named? (pairField byte)).map .push⟩,
    ⟨0xCF, 0xC1, fun byte => (StackPair.named? (pairField byte)).map .pop⟩,
    .byte 0xE3 .xthl, .byte 0xF9 .sphl, .byte 0xF3 .di, .byte 0xFB .ei]

/-- The instruction of the first pattern that fits the byte, if there is one and the fields name
something. -/
def dispatch? (byte : UInt8) : Option Instruction :=
  (patterns.find? (·.fits byte)).bind (·.form byte)

/-- **Every byte has a pattern, whose fields all name something**, and it is decoded by it. -/
theorem dispatch?_eq_some (byte : UInt8) : dispatch? byte = some (ofByte byte) := by
  rw [ofByte_eq_decode]
  revert byte
  exact forall_byte (by decide +kernel)

theorem dispatch?_eq_some_iff {byte : UInt8} {i : Instruction} :
    dispatch? byte = some i ↔ byte ∈ i.bytes := by
  rw [dispatch?_eq_some, Option.some_inj, mem_bytes_iff]

/-- The order matters for the byte of HLT alone. -/
theorem length_filter_fits (byte : UInt8) :
    (patterns.filter (·.fits byte)).length = if byte = 0x76 then 2 else 1 := by
  revert byte
  exact forall_byte (by decide +kernel)

/-! ### Lengths -/

/-- The bytes of instructions with an operand word. -/
def wordOpcodes : List UInt8 :=
  [0x01, 0x11, 0x21, 0x31, 0x22, 0x2A, 0x32, 0x3A,
    0xC3, 0xC2, 0xCA, 0xD2, 0xDA, 0xE2, 0xEA, 0xF2, 0xFA,
    0xCD, 0xC4, 0xCC, 0xD4, 0xDC, 0xE4, 0xEC, 0xF4, 0xFC,
    -- not documented: JMP, and CALL three times
    0xCB, 0xDD, 0xED, 0xFD]

/-- The bytes of instructions with an operand byte. -/
def byteOpcodes : List UInt8 :=
  [0x06, 0x0E, 0x16, 0x1E, 0x26, 0x2E, 0x36, 0x3E,
    0xC6, 0xCE, 0xD6, 0xDE, 0xE6, 0xEE, 0xF6, 0xFE, 0xD3, 0xDB]

/-- The length of the instruction with the given first byte, by the processor's table; a byte that is not
documented is as long as the instruction that it is a further form of. -/
def lengthOf (byte : UInt8) : Nat :=
  if byte ∈ wordOpcodes then 3 else if byte ∈ byteOpcodes then 2 else 1

theorem length_ofByte (byte : UInt8) : (ofByte byte).length = lengthOf byte := by
  rw [ofByte_eq_decode]
  revert byte
  exact forall_byte (by decide +kernel)

end Instruction

end Cabinet
