import Cabinet.Proofs.Cpu.Fetch
/-!
# The bytes of instructions

The first byte of an instruction is a sum: a number that tells what is done, and fields that name the
operation, the operand, the pair or the condition. The fields are those that decoding takes apart
again, so a byte written as such a sum is the instruction that the sum says.
-/

namespace Cabinet

/-! ### Fields -/

/-- The field that names a byte operand. -/
def Operand.field : Operand → UInt8
  | .reg .b => 0
  | .reg .c => 1
  | .reg .d => 2
  | .reg .e => 3
  | .reg .h => 4
  | .reg .l => 5
  | .mem => 6
  | .reg .a => 7

/-- The field that names an arithmetic operation. -/
def AluOp.field : AluOp → UInt8
  | .add => 0
  | .adc => 1
  | .sub => 2
  | .sbb => 3
  | .ana => 4
  | .xra => 5
  | .ora => 6
  | .cmp => 7

/-- The field that names a register pair. -/
def Pair.field : Pair → UInt8
  | .bc => 0
  | .de => 1
  | .hl => 2
  | .sp => 3

/-- The field that names a pair of PUSH and POP. -/
def StackPair.field : StackPair → UInt8
  | .bc => 0
  | .de => 1
  | .hl => 2
  | .psw => 3

/-- The field that names a condition. -/
def Cond.field : Cond → UInt8
  | .nz => 0
  | .z => 1
  | .nc => 2
  | .c => 3
  | .po => 4
  | .pe => 5
  | .p => 6
  | .m => 7

/-! ### Bytes -/

namespace Instruction

/-- The bytes that are the instruction: the documented one, and others that do the same. There is no
copying from memory to memory; its byte is HLT. -/
def bytes : Instruction → List UInt8
  | .nop => [0x00, 0x08, 0x10, 0x18, 0x20, 0x28, 0x30, 0x38]
  | .hlt => [0x76]
  | .mov .mem .mem => []
  | .mov dst src => [0x40 + 8 * dst.field + src.field]
  | .mvi dst => [0x06 + 8 * dst.field]
  | .lxi dst => [0x01 + 16 * dst.field]
  | .stax .bc => [0x02]
  | .stax .de => [0x12]
  | .ldax .bc => [0x0A]
  | .ldax .de => [0x1A]
  | .shld => [0x22]
  | .lhld => [0x2A]
  | .sta => [0x32]
  | .lda => [0x3A]
  | .xchg => [0xEB]
  | .input => [0xDB]
  | .output => [0xD3]
  | .alu op src => [0x80 + 8 * op.field + src.field]
  | .aluImmediate op => [0xC6 + 8 * op.field]
  | .inr dst => [0x04 + 8 * dst.field]
  | .dcr dst => [0x05 + 8 * dst.field]
  | .inx dst => [0x03 + 16 * dst.field]
  | .dcx dst => [0x0B + 16 * dst.field]
  | .dad src => [0x09 + 16 * src.field]
  | .rlc => [0x07]
  | .rrc => [0x0F]
  | .ral => [0x17]
  | .rar => [0x1F]
  | .daa => [0x27]
  | .cma => [0x2F]
  | .stc => [0x37]
  | .cmc => [0x3F]
  | .jmp => [0xC3, 0xCB]
  | .jcc cond => [0xC2 + 8 * cond.field]
  | .call => [0xCD, 0xDD, 0xED, 0xFD]
  | .ccc cond => [0xC4 + 8 * cond.field]
  | .ret => [0xC9, 0xD9]
  | .rcc cond => [0xC0 + 8 * cond.field]
  | .rst n => [0xC7 + 8 * UInt8.ofNat n]
  | .pchl => [0xE9]
  | .push src => [0xC5 + 16 * src.field]
  | .pop dst => [0xC1 + 16 * dst.field]
  | .xthl => [0xE3]
  | .sphl => [0xF9]
  | .di => [0xF3]
  | .ei => [0xFB]

theorem ofByte_alu (op : AluOp) (src : Operand) :
    ofByte (0x80 + 8 * op.field + src.field) = .alu op src := by
  rw [ofByte_eq_decode]
  cases src with
  | mem => cases op <;> rfl
  | reg r => cases r <;> cases op <;> rfl

theorem ofByte_aluImmediate (op : AluOp) : ofByte (0xC6 + 8 * op.field) = .aluImmediate op := by
  rw [ofByte_eq_decode]
  cases op <;> rfl

theorem ofByte_inr (dst : Operand) : ofByte (0x04 + 8 * dst.field) = .inr dst := by
  rw [ofByte_eq_decode]
  cases dst with
  | mem => rfl
  | reg r => cases r <;> rfl

theorem ofByte_dcr (dst : Operand) : ofByte (0x05 + 8 * dst.field) = .dcr dst := by
  rw [ofByte_eq_decode]
  cases dst with
  | mem => rfl
  | reg r => cases r <;> rfl

theorem ofByte_dad (src : Pair) : ofByte (0x09 + 16 * src.field) = .dad src := by
  rw [ofByte_eq_decode]
  cases src <;> rfl

theorem ofByte_ccc (cond : Cond) : ofByte (0xC4 + 8 * cond.field) = .ccc cond := by
  rw [ofByte_eq_decode]
  cases cond <;> rfl

theorem ofByte_rcc (cond : Cond) : ofByte (0xC0 + 8 * cond.field) = .rcc cond := by
  rw [ofByte_eq_decode]
  cases cond <;> rfl

theorem ofByte_rst (n : Fin 8) : ofByte (0xC7 + 8 * UInt8.ofNat n) = .rst n := by
  rw [ofByte_eq_decode]
  revert n
  decide

theorem ofByte_call {byte : UInt8} (h : byte ∈ [0xCD, 0xDD, 0xED, 0xFD]) : ofByte byte = .call := by
  rw [ofByte_eq_decode]
  simp only [List.mem_cons, List.not_mem_nil, or_false] at h
  obtain rfl | rfl | rfl | rfl := h <;> rfl

theorem ofByte_ret {byte : UInt8} (h : byte ∈ [0xC9, 0xD9]) : ofByte byte = .ret := by
  rw [ofByte_eq_decode]
  simp only [List.mem_cons, List.not_mem_nil, or_false] at h
  obtain rfl | rfl := h <;> rfl

theorem ofByte_jmp {byte : UInt8} (h : byte ∈ [0xC3, 0xCB]) : ofByte byte = .jmp := by
  rw [ofByte_eq_decode]
  simp only [List.mem_cons, List.not_mem_nil, or_false] at h
  obtain rfl | rfl := h <;> rfl

theorem ofByte_nop {byte : UInt8} (h : byte ∈ [0x00, 0x08, 0x10, 0x18, 0x20, 0x28, 0x30, 0x38]) :
    ofByte byte = .nop := by
  rw [ofByte_eq_decode]
  simp only [List.mem_cons, List.not_mem_nil, or_false] at h
  obtain rfl | rfl | rfl | rfl | rfl | rfl | rfl | rfl := h <;> rfl

theorem ofByte_of_mem_bytes {byte : UInt8} {i : Instruction} (h : byte ∈ i.bytes) : ofByte byte = i := by
  cases i with
  | mov dst src =>
    rw [ofByte_eq_decode]
    cases dst with
    | mem =>
      cases src with
      | mem => cases h
      | reg r =>
        obtain rfl := List.mem_singleton.1 h
        cases r <;> rfl
    | reg r =>
      obtain rfl := List.mem_singleton.1 h
      cases src with
      | mem => cases r <;> rfl
      | reg r' => cases r <;> cases r' <;> rfl
  | mvi dst =>
    obtain rfl := List.mem_singleton.1 h
    rw [ofByte_eq_decode]
    cases dst with
    | mem => rfl
    | reg r => cases r <;> rfl
  | lxi p | inx p | dcx p | push p | pop p =>
    obtain rfl := List.mem_singleton.1 h
    rw [ofByte_eq_decode]
    cases p <;> rfl
  | jcc cond =>
    obtain rfl := List.mem_singleton.1 h
    rw [ofByte_eq_decode]
    cases cond <;> rfl
  | stax p | ldax p =>
    rw [ofByte_eq_decode]
    cases p <;> (obtain rfl := List.mem_singleton.1 h; rfl)
  | alu op src => exact List.mem_singleton.1 h ▸ ofByte_alu op src
  | aluImmediate op => exact List.mem_singleton.1 h ▸ ofByte_aluImmediate op
  | inr dst => exact List.mem_singleton.1 h ▸ ofByte_inr dst
  | dcr dst => exact List.mem_singleton.1 h ▸ ofByte_dcr dst
  | dad src => exact List.mem_singleton.1 h ▸ ofByte_dad src
  | ccc cond => exact List.mem_singleton.1 h ▸ ofByte_ccc cond
  | rcc cond => exact List.mem_singleton.1 h ▸ ofByte_rcc cond
  | rst n => exact List.mem_singleton.1 h ▸ ofByte_rst n
  | call => exact ofByte_call h
  | ret => exact ofByte_ret h
  | jmp => exact ofByte_jmp h
  | nop => exact ofByte_nop h
  | _ =>
    obtain rfl := List.mem_singleton.1 h
    rw [ofByte_eq_decode]
    rfl

/-- Every byte is one of those of the instruction that it is decoded to. -/
theorem mem_bytes_ofByte (byte : UInt8) : byte ∈ (ofByte byte).bytes := by
  rw [ofByte_eq_decode]
  have all : ∀ n : Fin 256, UInt8.ofFin n ∈ (decode (UInt8.ofFin n)).bytes := by decide +kernel
  simpa using all byte.toFin

/-- **A byte is an instruction exactly if it is one of its bytes.** -/
theorem mem_bytes_iff {byte : UInt8} {i : Instruction} : byte ∈ i.bytes ↔ ofByte byte = i :=
  ⟨ofByte_of_mem_bytes, fun h => h ▸ mem_bytes_ofByte byte⟩

end Instruction

/-! ### The next instruction -/

namespace Circuit

variable {σ : Type} [Bus σ] {w : Circuit σ} {i : Instruction}

/-- The first byte of the next instruction. -/
def opcode (w : Circuit σ) : UInt8 := w.fetch.1

theorem flags_fetchOperand (w : Circuit σ) (n : Nat) :
    (w.fetchOperand n).2.cpu.flags = w.cpu.flags := by
  match n with
  | 0 | 1 | _ + 2 => rfl

/-- A step does the work of the instruction whose byte comes next, with the operand behind it. -/
theorem step_of_opcode (running : w.cpu.halted = false) (h : Instruction.ofByte w.opcode = i) :
    w.step = (i.cycles w.cpu.flags,
      exec i (w.fetch.2.fetchOperand i.operandBytes).1 (w.fetch.2.fetchOperand i.operandBytes).2) := by
  subst h
  rw [step, if_neg (by rw [running]; exact Bool.false_ne_true), stepRunning, flags_fetchOperand]
  rfl

end Circuit

end Cabinet
