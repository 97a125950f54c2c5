import Cabinet.Proofs.Cpu.Dispatch
import Cabinet.Proofs.Cpu.Traffic
/-!
# Where a program goes on

An instruction goes on behind its last byte, unless it is a jump, a call, a return or a restart, or a
conditional form whose condition holds (`Instruction.target`). Where these go on is the word that the
step reads behind its first byte, the operand of a jump and a call and the popped word of a return, or a
fixed address, or HL (`Circuit.pc_step`). Whether a conditional form is taken depends on its condition
only, and not on whether it jumps, calls or returns (`Circuit.cpu_step_conditional`).
-/

namespace Cabinet

/-- Where an instruction goes on, if not behind its last byte; `word` is the operand or the popped word. -/
def Instruction.target (c : Cpu) (word : UInt16) : Instruction → Option UInt16
  | .jmp | .call | .ret => some word
  | .jcc cond | .ccc cond | .rcc cond => if cond.holds c.flags then some word else none
  | .rst n => some (8 * UInt16.ofNat n)
  | .pchl => some c.hl
  | _ => none

/-- The condition with the other code of the pair holds if this one does not. -/
theorem Cond.holds_eq_not {even odd : Cond} (pair : odd.field = even.field ^^^ 1) (f : Flags) :
    odd.holds f = !even.holds f := by
  cases even <;> cases odd <;> first | contradiction | simp [holds]

/-! ### The work of an instruction -/

namespace Cpu

theorem pc_setReg (c : Cpu) (r : Reg) (v : UInt8) : (c.setReg r v).pc = c.pc := by
  cases r <;> rfl

theorem pc_setPair (c : Cpu) (p : Pair) (v : UInt16) : (c.setPair p v).pc = c.pc := by
  cases p <;> rfl

theorem pc_setStackPair (c : Cpu) (p : StackPair) (v : UInt16) : (c.setStackPair p v).pc = c.pc := by
  cases p <;> rfl

end Cpu

namespace Circuit

variable {σ : Type} [Bus σ] {w : Circuit σ} {i : Instruction}

theorem pc_setOperand (w : Circuit σ) (o : Operand) (v : UInt8) :
    (w.setOperand o v).cpu.pc = w.cpu.pc := by
  cases o with
  | reg r => exact w.cpu.pc_setReg r v
  | mem => rfl

/-- The word that the instruction may go on at. -/
def nextWord (i : Instruction) (arg : UInt16) (w : Circuit σ) : UInt16 :=
  match i with
  | .ret | .rcc _ => w.pop.1
  | _ => arg

/-- The work of an instruction leaves the program counter behind the instruction, or sets it to the
target: one case for each instruction. -/
theorem pc_exec (i : Instruction) (arg : UInt16) (w : Circuit σ) :
    (exec i arg w).cpu.pc = (i.target w.cpu (nextWord i arg w)).getD w.cpu.pc := by
  cases i with
  | mov dst src => exact (pc_setOperand ..).trans (congrArg Cpu.pc (w.cpu_operand src))
  | inr dst | dcr dst =>
    refine (pc_setOperand ..).trans ?_
    show (w.operand dst).2.cpu.pc = _
    rw [cpu_operand]
    rfl
  | mvi dst => exact pc_setOperand ..
  | lxi dst | inx dst | dcx dst => exact Cpu.pc_setPair ..
  | pop dst => exact Cpu.pc_setStackPair ..
  | stax p | ldax p => cases p <;> rfl
  | alu op src =>
    show (w.operand src).2.cpu.pc = _
    rw [cpu_operand]
    rfl
  | jcc cond | ccc cond | rcc cond =>
    simp only [exec, Instruction.target]
    split <;> rfl
  | _ => rfl

/-! ### One step -/

theorem pc_fetchOperand (w : Circuit σ) (i : Instruction) :
    (w.fetch.2.fetchOperand i.operandBytes).2.cpu.pc = w.cpu.pc + UInt16.ofNat i.length := by
  have two : w.cpu.pc + 1 + 1 = w.cpu.pc + 2 := UInt16.add_assoc ..
  have three : w.cpu.pc + 1 + 1 + 1 = w.cpu.pc + 3 := by
    rw [two]
    exact UInt16.add_assoc ..
  have le := i.operandBytes_le_two
  rw [Instruction.length]
  match i.operandBytes, le with
  | 0, _ => rfl
  | 1, _ => exact two
  | 2, _ => exact three

/-- A return pops the word that the step reads behind the first byte. -/
theorem pop_fetch (running : w.cpu.halted = false) (returns : w.Returns) :
    w.fetch.2.pop.1 = w.wordRead := by
  have recorded : w.traced.Returns := by
    cases returns with
    | ret opcode => exact .ret opcode
    | conditional cond opcode taken => exact .conditional cond opcode taken
  rw [wordRead, accesses, Returns.step_eq (v := w.traced) running recorded]
  rfl

/-- The target of the next instruction is the word that the step reads. -/
theorem target_wordRead (running : w.cpu.halted = false) (opcode : w.opcode ∈ i.bytes) :
    let fetched := w.fetch.2.fetchOperand i.operandBytes
    i.target fetched.2.cpu (nextWord i fetched.1 fetched.2) = i.target w.cpu w.wordRead := by
  intro fetched
  -- Only jumps and calls go on at their operand, and only returns at the popped word.
  cases i with
  | jmp | call => exact congrArg some (wordRead_of_two running opcode rfl).symm
  | jcc cond | ccc cond =>
    rw [wordRead_of_two running opcode rfl]
    rfl
  | ret => exact congrArg some (pop_fetch running (.ret opcode))
  | rcc cond =>
    show (if cond.holds w.cpu.flags then some w.fetch.2.pop.1 else none) = ite _ _ _
    split
    · rename_i taken
      rw [pop_fetch running (.conditional cond (List.mem_singleton.1 opcode) taken)]
    · rfl
  | _ => rfl

/-- **A step goes on at the target of its instruction, or else behind its last byte.** -/
theorem pc_step (running : w.cpu.halted = false) (opcode : w.opcode ∈ i.bytes) :
    w.step.2.cpu.pc =
      (i.target w.cpu w.wordRead).getD (w.cpu.pc + UInt16.ofNat i.length) := by
  have decoded : Instruction.ofByte w.opcode = i := Instruction.mem_bytes_iff.1 opcode
  rw [step_of_opcode running decoded]
  show (exec i _ (w.fetch.2.fetchOperand i.operandBytes).2).cpu.pc = _
  rw [pc_exec, target_wordRead running opcode, pc_fetchOperand]

/-! ### Conditions -/

/-- A step of an instruction of three bytes is its work with the word that the step reads. -/
theorem step_word (running : w.cpu.halted = false) (opcode : w.opcode ∈ i.bytes)
    (two : i.operandBytes = 2) :
    w.step.2 = exec i w.wordRead ⟨w.cpu.advance 3, w.argumentBus⟩ := by
  rw [step_of_opcode running (Instruction.mem_bytes_iff.1 opcode), two, fetchOperand_two,
    wordRead_of_two running opcode two]

/-- What the three conditional forms do to the processor. -/
theorem cpu_step_conditional (running : w.cpu.halted = false) (cond : Cond) :
    (w.opcode = 0xC2 + 8 * cond.field → w.step.2.cpu =
      if cond.holds w.cpu.flags then { w.cpu with pc := w.wordRead }
      else { w.cpu with pc := w.cpu.pc + 3 }) ∧
    (w.opcode = 0xC4 + 8 * cond.field → w.step.2.cpu =
      if cond.holds w.cpu.flags then { w.cpu with pc := w.wordRead, sp := w.cpu.sp - 2 }
      else { w.cpu with pc := w.cpu.pc + 3 }) ∧
    (w.opcode = 0xC0 + 8 * cond.field → w.step.2.cpu =
      if cond.holds w.cpu.flags then { w.cpu with pc := w.wordRead, sp := w.cpu.sp + 2 }
      else { w.cpu with pc := w.cpu.pc + 1 }) := by
  refine ⟨fun jcc => ?_, fun ccc => ?_, fun rcc => ?_⟩
  · have opcode : w.opcode ∈ (Instruction.jcc cond).bytes := List.mem_singleton.2 jcc
    rw [step_word running opcode rfl]
    exact apply_ite cpu ..
  · have opcode : w.opcode ∈ (Instruction.ccc cond).bytes := List.mem_singleton.2 ccc
    rw [step_word running opcode rfl]
    exact apply_ite cpu ..
  · split
    · rename_i taken
      have returns : w.Returns := .conditional cond rcc taken
      rw [returns.step_eq running, ← pop_fetch running returns]
      rfl
    · rename_i other
      rw [step_of_opcode running (rcc ▸ Instruction.ofByte_rcc cond)]
      exact congrArg cpu (if_neg other)

/-- **Decoding, and where a program goes on.** Every byte fits a pattern, all its fields name something,
and it is as long as the processor's table says. Whatever the state of a processor that is not halted, and
whatever the bus does, a step of the instruction that the first byte is decoded to

* reads as many bytes as the instruction is long, from the program counter on and around the end of the
  address range, and makes all its other accesses after that;
* goes on behind these bytes, or where a jump, a call, a return, a restart or HL leads, if it is one of
  these or a conditional form whose condition holds.

A jump, a call and a return with the same condition are taken under the same flags, and of two codes that
differ in the lowest bit one condition is the negation of the other. The accesses are seen on a bus that
records them, whose presence changes nothing. -/
theorem decoded_and_followed (running : w.cpu.halted = false) :
    (∀ byte, ∃ i, Instruction.dispatch? byte = some i ∧ byte ∈ i.bytes ∧
      i.length = Instruction.lengthOf byte) ∧
    (∀ i, Instruction.dispatch? w.opcode = some i →
      w.accesses.map Bus.Access.place =
        (List.range (Instruction.lengthOf w.opcode)).map
          (fun k => (.read, w.cpu.pc + UInt16.ofNat k)) ++ i.touches w.cpu w.wordRead ∧
      w.step.2.cpu.pc = (i.target w.cpu w.wordRead).getD
        (w.cpu.pc + UInt16.ofNat (Instruction.lengthOf w.opcode))) ∧
    (∀ cond : Cond,
      (w.opcode = 0xC2 + 8 * cond.field → w.step.2.cpu =
        if cond.holds w.cpu.flags then { w.cpu with pc := w.wordRead }
        else { w.cpu with pc := w.cpu.pc + 3 }) ∧
      (w.opcode = 0xC4 + 8 * cond.field → w.step.2.cpu =
        if cond.holds w.cpu.flags then { w.cpu with pc := w.wordRead, sp := w.cpu.sp - 2 }
        else { w.cpu with pc := w.cpu.pc + 3 }) ∧
      (w.opcode = 0xC0 + 8 * cond.field → w.step.2.cpu =
        if cond.holds w.cpu.flags then { w.cpu with pc := w.wordRead, sp := w.cpu.sp + 2 }
        else { w.cpu with pc := w.cpu.pc + 1 })) ∧
    (∀ even odd : Cond, odd.field = even.field ^^^ 1 → ∀ f, odd.holds f = !even.holds f) ∧
    w.traced.step.2.cpu = w.step.2.cpu ∧ w.traced.step.2.bus.bus = w.step.2.bus := by
  have unnoticed := (w.alike_traced.step Traced.simulation).alike
  refine ⟨?_, ?_, cpu_step_conditional running, ?_, unnoticed.cpu_eq.symm, unnoticed.bus⟩
  · intro byte
    exact ⟨_, Instruction.dispatch?_eq_some byte, Instruction.mem_bytes_ofByte byte,
      Instruction.length_ofByte byte⟩
  · intro i dispatched
    have opcode : w.opcode ∈ i.bytes := Instruction.dispatch?_eq_some_iff.1 dispatched
    have length : Instruction.lengthOf w.opcode = i.length := by
      rw [← Instruction.length_ofByte, Instruction.mem_bytes_iff.1 opcode]
    rw [length, touches_wordRead running opcode]
    exact ⟨places_step running opcode, pc_step running opcode⟩
  · intro even odd pair f
    exact Cond.holds_eq_not pair f

/-- RNZ at the first address, with the stack pointer at the last one. -/
def returning : Circuit Board where
  cpu := { sp := 0xFFFF }
  bus := .flat [0xC0]

theorem opcode_returning : returning.opcode = 0xC0 := opcode_flat _ _

theorem wordRead_returning : returning.wordRead = 0xC000 := by
  have fetched : returning.fetch = (0xC0, ⟨returning.cpu.advance 1, returning.bus⟩) :=
    fetch_of_read (Board.read_flat _ _)
  rw [← pop_fetch rfl (.conditional .nz opcode_returning rfl), fetched]
  simp only [pop, load, returning, Board.read_flat]
  decide

/-- It pops the word around the end of the address range: the high byte is its own. -/
theorem returning_followed : returning.cpu.halted = false ∧
    returning.accesses.map Bus.Access.place = [(.read, 0x0000), (.read, 0xFFFF), (.read, 0x0000)] ∧
    returning.step.2.cpu = { returning.cpu with pc := 0xC000, sp := 0x0001 } := by
  obtain ⟨-, followed, conditional, -⟩ := decoded_and_followed (w := returning) rfl
  obtain ⟨places, -⟩ := followed (.rcc .nz) (by rw [opcode_returning]; decide +kernel)
  have cpu := (conditional .nz).2.2 opcode_returning
  have length : Instruction.lengthOf 0xC0 = 1 := by decide
  rw [opcode_returning, length] at places
  rw [wordRead_returning] at cpu
  exact ⟨rfl, places, cpu⟩

end Circuit

end Cabinet
