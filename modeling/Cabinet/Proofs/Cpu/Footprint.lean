import Cabinet.Proofs.Cpu.Parts
import Cabinet.Proofs.Cpu.Traffic
/-!
# What an instruction touches

Of the processor, an instruction touches what it is documented to and nothing else
(`Instruction.changes`), and it writes to the bus where it is documented to and nowhere else
(`Instruction.stores`, `Instruction.ports`). Both are tables of the instructions, and of the flags, since
a call or a return whose condition does not hold touches nothing.

What is written is seen on a bus that records the accesses. All accesses of a step are known
(`Circuit.places_step`), and those among them that write are the ones of the table, with the operand that is
found behind the first byte (`Circuit.writes_step`); fetching writes nothing. So on the board all other
memory is as it was (`Circuit.memory_step`).
-/

namespace Cabinet

open Cpu (Part Differs)

/-! ### What instructions are documented to touch -/

/-- The addresses that are written to when a byte operand is set. -/
def Operand.stores (c : Cpu) : Operand → List UInt16
  | .reg _ => []
  | .mem => [c.hl]

namespace Instruction

/-- The parts of the processor that an instruction may change, under the given flags. -/
def changes (f : Flags) : Instruction → List Part
  | .nop | .stax _ | .shld | .sta | .output | .jmp | .jcc _ | .pchl => []
  | .mov dst _ | .mvi dst => dst.parts
  | .lxi dst | .inx dst | .dcx dst => dst.parts
  | .ldax _ | .lda | .input | .cma => [.reg .a]
  | .lhld | .xthl => [.reg .h, .reg .l]
  | .xchg => [.reg .d, .reg .e, .reg .h, .reg .l]
  | .alu op _ | .aluImmediate op => op.parts
  | .daa => .reg .a :: Flags.parts
  | .inr dst | .dcr dst => [.sign, .zero, .auxCarry, .parity] ++ dst.parts
  | .dad _ => [.carry, .reg .h, .reg .l]
  | .rlc | .rrc | .ral | .rar => [.reg .a, .carry]
  | .stc | .cmc => [.carry]
  | .call | .ret | .rst _ | .push _ | .sphl => [.sp]
  | .ccc cond | .rcc cond => if cond.holds f then [.sp] else []
  | .pop dst => .sp :: dst.parts
  | .hlt => [.halted]
  | .di | .ei => [.inte]

/-- The addresses that an instruction with operand `arg` writes to, in their order. -/
def stores (c : Cpu) (arg : UInt16) : Instruction → List UInt16
  | .mov dst _ | .mvi dst | .inr dst | .dcr dst => dst.stores c
  | .stax .bc => [c.bc]
  | .stax .de => [c.de]
  | .sta => [arg]
  | .shld => [arg, arg + 1]
  | .call | .rst _ | .push _ => [c.sp - 1, c.sp - 2]
  | .ccc cond => if cond.holds c.flags then [c.sp - 1, c.sp - 2] else []
  | .xthl => [c.sp, c.sp + 1]
  | _ => []

/-- The ports that an instruction with operand `arg` writes to, as addresses. -/
def ports (arg : UInt16) : Instruction → List UInt16
  | .output => [Circuit.portAddress (loByte arg)]
  | _ => []

/-- Where an instruction with operand `arg` writes to, memory and ports told apart. -/
def writes (c : Cpu) (arg : UInt16) (i : Instruction) : List (Bus.Kind × UInt16) :=
  (i.stores c arg).map (.write, ·) ++ (i.ports arg).map (.output, ·)

end Instruction

/-! ### The processor -/

namespace Circuit

section Processor

variable {σ : Type} [Bus σ]

theorem differs_setOperand (w : Circuit σ) (o : Operand) (v : UInt8) :
    Differs o.parts w.cpu (w.setOperand o v).cpu := by
  cases o with
  | reg r => exact Cpu.differs_setReg w.cpu r v
  | mem => exact .refl _ _

/-- An operand is read, flags are set with the carry as it was, and the operand is written back. -/
theorem differs_counted (w : Circuit σ) (o : Operand) {flags : Flags}
    (carry : flags.carry = w.cpu.flags.carry) (v : UInt8) :
    Differs ([.sign, .zero, .auxCarry, .parity] ++ o.parts) w.cpu
      (((w.operand o).2.mapCpu ({ · with flags })).setOperand o v).cpu := by
  have flagged := w.cpu.differs_flags_of_carry_eq carry
  cases o with
  | reg r => exact flagged.trans (Cpu.differs_setReg _ r v)
  | mem => exact flagged.trans (.refl _ _)

theorem differs_fetchOperand (w : Circuit σ) (n : Nat) :
    Differs [] w.cpu (w.fetchOperand n).2.cpu := by
  match n with
  | 0 => exact .refl _ _
  | 1 | _ + 2 => exact Cpu.differs_pc _ _

/-- **The work of an instruction** changes what the table says: one case for each instruction. -/
theorem differs_exec (i : Instruction) (arg : UInt16) (w : Circuit σ) :
    Differs (i.changes w.cpu.flags) w.cpu (exec i arg w).cpu := by
  cases i with
  | nop | shld | sta | output => exact .refl _ _
  | jmp | pchl => exact Cpu.differs_pc _ _
  | hlt => exact Cpu.differs_halted _ _
  | di | ei => exact Cpu.differs_inte _ _
  | sphl | push src => exact Cpu.differs_sp _ _
  | call | rst n | ret => exact (Cpu.differs_sp w.cpu _).trans (Cpu.differs_pc _ _)
  | stax p => cases p <;> exact .refl _ _
  | ldax p => cases p <;> exact Cpu.differs_setReg w.cpu .a _
  | lda | input | cma => exact Cpu.differs_setReg w.cpu .a _
  | lhld | xthl => exact w.cpu.differs_h_l _ _
  | xchg =>
    have de := Cpu.differs_setReg_setReg w.cpu .d .e w.cpu.h w.cpu.l
    exact de.trans (Cpu.differs_setReg_setReg _ .h .l w.cpu.d w.cpu.e)
  | mov dst src =>
    have moved := (w.operand src).2.differs_setOperand dst (w.operand src).1
    rw [cpu_operand] at moved
    exact moved
  | mvi dst => exact w.differs_setOperand dst _
  | lxi dst => exact Cpu.differs_setPair w.cpu dst _
  | inx dst => exact Cpu.differs_setPair w.cpu dst _
  | dcx dst => exact Cpu.differs_setPair w.cpu dst _
  | alu op src =>
    show Differs op.parts w.cpu ((w.operand src).2.cpu.alu op (w.operand src).1)
    rw [cpu_operand]
    exact w.cpu.differs_alu op _
  | aluImmediate op => exact w.cpu.differs_alu op _
  | stc | cmc => exact w.cpu.differs_setCarry _
  | rlc | rrc | ral | rar => exact w.cpu.differs_a_carry _ _
  | daa => exact w.cpu.differs_a_flags _ _
  | jcc cond =>
    simp only [exec]
    split
    · exact Cpu.differs_pc _ _
    · exact .refl _ _
  | ccc cond | rcc cond =>
    simp only [exec, Instruction.changes]
    split
    · exact (Cpu.differs_sp w.cpu _).trans (Cpu.differs_pc _ _)
    · exact .refl _ _
  | pop dst => exact (Cpu.differs_sp w.cpu _).trans (Cpu.differs_setStackPair _ dst _)
  | dad src => exact (w.cpu.differs_setCarry _).trans (Cpu.differs_setPair _ .hl _)
  | inr dst | dcr dst =>
    have carry : (w.operand dst).2.cpu.flags.carry = w.cpu.flags.carry := by rw [cpu_operand]
    refine w.differs_counted dst ?_ _
    exact carry

/-- **A step changes what the table says** of the instruction, and the program counter. -/
theorem differs_step {w : Circuit σ} {i : Instruction} (opcode : w.opcode ∈ i.bytes) :
    Differs (i.changes w.cpu.flags) w.cpu w.step.2.cpu := by
  cases halted : w.cpu.halted with
  | true =>
    rw [step, if_pos halted]
    exact .refl _ _
  | false =>
    have fetched : Differs [] w.cpu (w.fetch.2.fetchOperand i.operandBytes).2.cpu :=
      (Cpu.differs_pc w.cpu _).trans (w.fetch.2.differs_fetchOperand _)
    have worked := differs_exec i (w.fetch.2.fetchOperand i.operandBytes).1
      (w.fetch.2.fetchOperand i.operandBytes).2
    rw [flags_fetchOperand] at worked
    rw [step_of_opcode halted (Instruction.mem_bytes_iff.1 opcode)]
    exact fetched.trans worked

end Processor

end Circuit

/-! ### The bus -/

/-- The writes to the bus so far, to memory and to ports. -/
def Traced.writes {σ : Type} (t : Traced σ) : List (Bus.Kind × UInt16) :=
  (t.trace.toList.filter fun x => x.kind = .write ∨ x.kind = .output).map fun x => (x.kind, x.address)

/-- They are those among all accesses that write. -/
theorem Traced.writes_eq {σ : Type} (t : Traced σ) :
    t.writes = t.places.filter fun x => x.1 = .write ∨ x.1 = .output := by
  rw [places, List.filter_map]
  rfl

section Writes

variable {σ : Type} [Bus σ]

theorem Traced.writes_read (a : UInt16) (t : Traced σ) : (Bus.read a t).2.writes = t.writes := by
  show (t.record .read a _ _).writes = t.writes
  simp [Traced.writes, Traced.record]

theorem Traced.writes_input (a : UInt16) (t : Traced σ) : (Bus.input a t).2.writes = t.writes := by
  show (t.record .input a _ _).writes = t.writes
  simp [Traced.writes, Traced.record]

theorem Traced.writes_write (a : UInt16) (v : UInt8) (t : Traced σ) :
    (Bus.write a v t).writes = t.writes ++ [(.write, a)] := by
  show (t.record .write a v _).writes = _
  simp [Traced.writes, Traced.record]

theorem Traced.writes_output (a : UInt16) (v : UInt8) (t : Traced σ) :
    (Bus.output a v t).writes = t.writes ++ [(.output, a)] := by
  show (t.record .output a v _).writes = _
  simp [Traced.writes, Traced.record]

end Writes

/-- Of the accesses of an instruction those write that the tables name: one case for each instruction. -/
theorem Instruction.writes_eq (i : Instruction) (c : Cpu) (arg : UInt16) :
    i.writes c arg = (i.touches c arg).filter fun x => x.1 = .write ∨ x.1 = .output := by
  cases i with
  | mov dst src => cases dst <;> cases src <;> rfl
  | mvi o | inr o | dcr o => cases o <;> rfl
  | alu op o => cases o <;> rfl
  | stax p | ldax p => cases p <;> rfl
  | ccc cond | rcc cond =>
    simp only [writes, stores, touches]
    split <;> rfl
  | _ => rfl

/-! ### A step -/

namespace Circuit

variable {σ : Type} [Bus σ] {w : Circuit σ} {i : Instruction}

theorem writes_step (running : w.cpu.halted = false) (opcode : w.opcode ∈ i.bytes) :
    w.traced.step.2.bus.writes = i.writes w.cpu w.argument := by
  have places : w.traced.step.2.bus.places = _ := places_step running opcode
  have fetching : ((List.range i.length).map fun k =>
      (Bus.Kind.read, w.cpu.pc + UInt16.ofNat k)).filter
        (fun x => x.1 = .write ∨ x.1 = .output) = [] := by
    simp [List.filter_eq_nil_iff]
  rw [Traced.writes_eq, places, List.filter_append, fetching, List.nil_append,
    Instruction.writes_eq]

/-- Memory of a board that has not been written to, while the accesses are recorded, is as it was. -/
theorem keeps_unwritten (a : UInt16) (x : UInt8) :
    Bus.Keeps fun t : Traced Board => (.write, a) ∉ t.writes → t.bus.memory.read a = x where
  read b t h off := h (Traced.writes_read b t ▸ off)
  write b v t h off := by
    rw [Traced.writes_write, List.mem_append, not_or] at off
    have other : a ≠ b := fun same => off.2 (same ▸ List.mem_singleton_self _)
    exact (AddressSpace.read_write_of_ne other v).trans (h off.1)
  input b t h off := h (Traced.writes_input b t ▸ off)
  output b v t h off := by
    rw [Traced.writes_output, List.mem_append, not_or] at off
    obtain ⟨shifter, eq⟩ := t.bus.output_eq_shifter b v
    show (t.bus.output b v).memory.read a = x
    rw [eq]
    exact h off.1

/-- **Memory of the board that the instruction does not write to** is as it was before the step. -/
theorem memory_step {w : Circuit Board} (running : w.cpu.halted = false) (opcode : w.opcode ∈ i.bytes)
    {a : UInt16} (off : a ∉ i.stores w.cpu w.argument) :
    w.step.2.bus.memory.read a = w.bus.memory.read a := by
  have start : Alike (fun s t : Traced Board => s = t ∧
      ((.write, a) ∉ s.writes → s.bus.memory.read a = w.bus.memory.read a)) w.traced w.traced :=
    ⟨w.cpu, rfl, fun _ => rfl⟩
  have kept := (start.step (keeps_unwritten a _).simulation).alike.bus.2
  have unnoticed := (w.alike_traced.step Traced.simulation).alike.bus
  rw [← unnoticed]
  refine kept ?_
  rw [writes_step running opcode, Instruction.writes]
  simpa using off

/-- **Only what an instruction is documented to touch.** Every byte is a byte of one instruction. Whatever
the state of the processor is and whatever the bus does, a step of the instruction with the byte

* leaves all parts of the processor as they are that it is not documented to change, apart from the
  program counter;
* writes to the addresses and to the port that it is documented to write to, in their order, and nowhere
  else. This is seen on a bus that records, whose presence changes nothing.

A halted processor executes none, and neither changes nor writes anything. -/
theorem step_footprint (w : Circuit σ) :
    (∀ byte, ∃! i : Instruction, byte ∈ i.bytes) ∧
    (∀ i : Instruction, w.opcode ∈ i.bytes →
      Differs (i.changes w.cpu.flags) w.cpu w.step.2.cpu ∧
      (w.cpu.halted = false → w.traced.step.2.bus.writes = i.writes w.cpu w.argument)) ∧
    (w.cpu.halted = true → w.step = (0, w) ∧ w.traced.step.2.bus.writes = []) ∧
    w.traced.step.2.cpu = w.step.2.cpu ∧ w.traced.step.2.bus.bus = w.step.2.bus := by
  have unnoticed := w.alike_traced.step Traced.simulation
  refine ⟨?_, ?_, ?_, ?_⟩
  · intro byte
    refine ⟨.ofByte byte, Instruction.mem_bytes_iff.2 rfl, ?_⟩
    intro i mem
    exact (Instruction.mem_bytes_iff.1 mem).symm
  · intro i opcode
    exact ⟨differs_step opcode, fun running => writes_step running opcode⟩
  · intro halted
    have still : w.step = (0, w) := if_pos halted
    have silent : w.traced.step = (0, w.traced) := if_pos halted
    rw [silent]
    exact ⟨still, rfl⟩
  · exact ⟨unnoticed.alike.cpu_eq.symm, unnoticed.alike.bus⟩

/-- SHLD to the last address of all. -/
def storing : Circuit Board where
  cpu := { h := 0x12, l := 0x34 }
  bus := .flat [0x22, 0xFF, 0xFF]

theorem argument_storing : storing.argument = 0xFFFF := by
  have first : storing.fetch = (0x22, ⟨storing.cpu.advance 1, storing.bus⟩) :=
    fetch_of_read (Board.read_flat _ _)
  have second : (Circuit.mk (storing.cpu.advance 1) storing.bus).fetch =
      (0xFF, ⟨storing.cpu.advance 2, storing.bus⟩) := fetch_of_read (Board.read_flat _ _)
  have third : (Circuit.mk (storing.cpu.advance 2) storing.bus).fetch =
      (0xFF, ⟨storing.cpu.advance 3, storing.bus⟩) := fetch_of_read (Board.read_flat _ _)
  simp only [argument, fetchOperand, first, second, third]
  decide

/-- It writes to the last address and to the first, and changes no part of the processor. -/
theorem storing_footprint : storing.opcode ∈ Instruction.shld.bytes ∧ storing.cpu.halted = false ∧
    storing.step.2.cpu = { storing.cpu with pc := storing.step.2.cpu.pc } ∧
    storing.traced.step.2.bus.writes = [(.write, 0xFFFF), (.write, 0x0000)] := by
  have opcode : storing.opcode ∈ Instruction.shld.bytes := by
    rw [storing, opcode_flat]
    decide
  obtain ⟨-, touched, -⟩ := step_footprint storing
  obtain ⟨cpu, writes⟩ := touched .shld opcode
  refine ⟨opcode, rfl, cpu.eq_of_nil, ?_⟩
  rw [writes rfl, argument_storing]
  rfl

end Circuit

end Cabinet
