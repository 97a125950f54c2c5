import Cabinet.Proofs.Cpu.Bracket
import Cabinet.Proofs.Cpu.Pending
/-!
# What a step does on the bus

A step reads the bytes of the instruction, one after the other from the program counter on, and then
makes the accesses of the instruction and no others (`Instruction.touches`, a table of the instructions).
This is seen on a bus that records the accesses, on which the work of an instruction adds its accesses to
those made before (`Circuit.places_exec`). So kinds and addresses of all accesses of a step are known from
the processor and from the word that the second and the third access read (`Circuit.places_step`).
-/

namespace Cabinet

/-! ### The accesses of an instruction -/

/-- What is accessed, and how: an access without the byte. -/
def Bus.Access.place (x : Bus.Access) : Bus.Kind × UInt16 := (x.kind, x.address)

/-- The addresses that a byte operand stands for. -/
def Operand.addresses (c : Cpu) : Operand → List UInt16
  | .reg _ => []
  | .mem => [c.hl]

/-- The accesses of an instruction with operand `arg`, beside those that fetch it, in their order. -/
def Instruction.touches (c : Cpu) (arg : UInt16) : Instruction → List (Bus.Kind × UInt16)
  | .mov dst src => (src.addresses c).map (.read, ·) ++ (dst.addresses c).map (.write, ·)
  | .mvi dst => (dst.addresses c).map (.write, ·)
  | .alu _ src => (src.addresses c).map (.read, ·)
  | .inr dst | .dcr dst => (dst.addresses c).map (.read, ·) ++ (dst.addresses c).map (.write, ·)
  | .stax .bc => [(.write, c.bc)]
  | .stax .de => [(.write, c.de)]
  | .ldax .bc => [(.read, c.bc)]
  | .ldax .de => [(.read, c.de)]
  | .shld => [(.write, arg), (.write, arg + 1)]
  | .lhld => [(.read, arg), (.read, arg + 1)]
  | .sta => [(.write, arg)]
  | .lda => [(.read, arg)]
  | .input => [(.input, Circuit.portAddress (loByte arg))]
  | .output => [(.output, Circuit.portAddress (loByte arg))]
  | .call | .rst _ | .push _ => [(.write, c.sp - 1), (.write, c.sp - 2)]
  | .ccc cond => if cond.holds c.flags then [(.write, c.sp - 1), (.write, c.sp - 2)] else []
  | .ret | .pop _ => [(.read, c.sp), (.read, c.sp + 1)]
  | .rcc cond => if cond.holds c.flags then [(.read, c.sp), (.read, c.sp + 1)] else []
  | .xthl => [(.read, c.sp), (.read, c.sp + 1), (.write, c.sp), (.write, c.sp + 1)]
  | _ => []

/-! ### The bus that records -/

/-- The accesses so far, without the bytes. -/
def Traced.places {σ : Type} (t : Traced σ) : List (Bus.Kind × UInt16) :=
  t.trace.toList.map Bus.Access.place

theorem Traced.places_record {σ : Type} (t : Traced σ) (kind : Bus.Kind) (a : UInt16) (v : UInt8)
    (bus : σ) : (t.record kind a v bus).places = t.places ++ [(kind, a)] := by
  simp [places, record, Bus.Access.place]

section Places

variable {σ : Type} [Bus σ]

theorem Traced.places_read (a : UInt16) (t : Traced σ) :
    (Bus.read a t).2.places = t.places ++ [(.read, a)] :=
  t.places_record .read a _ _

theorem Traced.places_write (a : UInt16) (v : UInt8) (t : Traced σ) :
    (Bus.write a v t).places = t.places ++ [(.write, a)] :=
  t.places_record .write a v _

theorem Traced.places_input (a : UInt16) (t : Traced σ) :
    (Bus.input a t).2.places = t.places ++ [(.input, a)] :=
  t.places_record .input a _ _

theorem Traced.places_output (a : UInt16) (v : UInt8) (t : Traced σ) :
    (Bus.output a v t).places = t.places ++ [(.output, a)] :=
  t.places_record .output a v _

namespace Circuit

variable (v : Circuit (Traced σ))

theorem places_operand (o : Operand) :
    (v.operand o).2.bus.places = v.bus.places ++ (o.addresses v.cpu).map (.read, ·) := by
  cases o with
  | reg r => exact (List.append_nil _).symm
  | mem => exact Traced.places_read _ _

theorem places_setOperand (o : Operand) (x : UInt8) :
    (v.setOperand o x).bus.places = v.bus.places ++ (o.addresses v.cpu).map (.write, ·) := by
  cases o with
  | reg r => exact (List.append_nil _).symm
  | mem => exact Traced.places_write _ _ _

/-- An operand is read, and flags are set before it is written back. -/
theorem places_counted (o : Operand) (flags : Flags) (x : UInt8) :
    (((v.operand o).2.mapCpu ({ · with flags })).setOperand o x).bus.places =
      v.bus.places ++ ((o.addresses v.cpu).map (.read, ·) ++ (o.addresses v.cpu).map (.write, ·)) := by
  cases o with
  | reg r => exact (List.append_nil _).symm
  | mem =>
    refine (Traced.places_write _ _ _).trans ?_
    rw [← List.append_assoc]
    exact congrArg (· ++ _) (Traced.places_read _ _)

theorem places_load_load (a a' : UInt16) :
    ((v.load a).2.load a').2.bus.places = v.bus.places ++ [(.read, a), (.read, a')] := by
  show (Bus.read a' (Bus.read a v.bus).2).2.places = _
  rw [Traced.places_read, Traced.places_read, List.append_assoc]
  rfl

theorem places_store_store (a a' : UInt16) (x x' : UInt8) :
    ((v.store a x).store a' x').bus.places = v.bus.places ++ [(.write, a), (.write, a')] := by
  show (Bus.write a' x' (Bus.write a x v.bus)).places = _
  rw [Traced.places_write, Traced.places_write, List.append_assoc]
  rfl

/-- **The work of an instruction** accesses what the table says: one case for each instruction. -/
theorem places_exec (i : Instruction) (arg : UInt16) :
    (exec i arg v).bus.places = v.bus.places ++ i.touches v.cpu arg := by
  have nothing : v.bus.places = v.bus.places ++ [] := (List.append_nil _).symm
  cases i with
  | nop | hlt | lxi | xchg | aluImmediate | inx | dcx | dad | rlc | rrc | ral | rar | daa | cma | stc
  | cmc | jmp | pchl | sphl | di | ei => exact nothing
  | mov dst src =>
    have moved := (v.operand src).2.places_setOperand dst (v.operand src).1
    rw [places_operand, cpu_operand, List.append_assoc] at moved
    exact moved
  | mvi dst => exact v.places_setOperand dst _
  | alu op src => exact v.places_operand src
  | inr dst | dcr dst => exact v.places_counted dst _ _
  | stax p => cases p <;> exact Traced.places_write _ _ _
  | ldax p => cases p <;> exact Traced.places_read _ _
  | sta => exact Traced.places_write _ _ _
  | lda => exact Traced.places_read _ _
  | input => exact Traced.places_input _ _
  | output => exact Traced.places_output _ _ _
  | shld | call | rst n | push src => exact v.places_store_store _ _ _ _
  | lhld | ret | pop dst => exact v.places_load_load _ _
  | jcc cond =>
    simp only [exec]
    split <;> exact nothing
  | ccc cond =>
    simp only [exec, Instruction.touches]
    split
    · exact v.places_store_store _ _ _ _
    · exact nothing
  | rcc cond =>
    simp only [exec, Instruction.touches]
    split
    · exact v.places_load_load _ _
    · exact nothing
  | xthl =>
    refine (places_store_store _ _ _ _ _).trans ?_
    exact (congrArg (· ++ _) (v.places_load_load _ _)).trans (List.append_assoc ..)

/-- The first byte and the operand bytes are read from the program counter on. -/
theorem places_fetchOperand {n : Nat} (le : n ≤ 2) :
    (v.fetch.2.fetchOperand n).2.bus.places =
      v.bus.places ++ (List.range (1 + n)).map fun k => (.read, v.cpu.pc + UInt16.ofNat k) := by
  have first : v.fetch.2.bus.places = v.bus.places ++ [(.read, v.cpu.pc + 0)] := by
    rw [UInt16.add_zero]
    exact Traced.places_read _ _
  have second : v.fetch.2.fetch.2.bus.places = v.fetch.2.bus.places ++ [(.read, v.cpu.pc + 1)] :=
    Traced.places_read _ _
  have third : v.fetch.2.fetch.2.fetch.2.bus.places =
      v.fetch.2.fetch.2.bus.places ++ [(.read, v.cpu.pc + 2)] := by
    have behind : v.cpu.pc + 1 + 1 = v.cpu.pc + 2 := UInt16.add_assoc ..
    rw [← behind]
    exact Traced.places_read _ _
  match n with
  | 0 => exact first
  | 1 => exact second.trans (by rw [first, List.append_assoc]; rfl)
  | 2 => exact third.trans (by rw [second, first, List.append_assoc, List.append_assoc]; rfl)

end Circuit

end Places

/-! ### The accesses of a step -/

theorem Instruction.operandBytes_le_two (i : Instruction) : i.operandBytes ≤ 2 := by
  cases i <;> simp [operandBytes]

namespace Circuit

variable {σ : Type} [Bus σ] {w : Circuit σ} {i : Instruction}

/-- What an instruction accesses does not depend on the program counter. -/
theorem touches_pc (i : Instruction) (c : Cpu) (pc arg : UInt16) :
    i.touches { c with pc } arg = i.touches c arg := by
  cases i with
  | mov dst src => cases dst <;> cases src <;> rfl
  | mvi o | inr o | dcr o => cases o <;> rfl
  | alu op o => cases o <;> rfl
  | stax p | ldax p => cases p <;> rfl
  | _ => rfl

/-- Of its operand only what has been fetched matters. -/
theorem touches_congr {c : Cpu} {x y : UInt16} (two : i.operandBytes = 2 → x = y)
    (one : i.operandBytes = 1 → loByte x = loByte y) : i.touches c x = i.touches c y := by
  cases i with
  | shld | lhld | sta | lda => rw [two rfl]
  | input | output => simp only [Instruction.touches, one rfl]
  | stax p | ldax p => cases p <;> rfl
  | _ => rfl

theorem cpu_fetchOperand (w : Circuit σ) (n : Nat) :
    ∃ pc, (w.fetch.2.fetchOperand n).2.cpu = { w.cpu with pc } := by
  match n with
  | 0 | 1 | _ + 2 => exact ⟨_, rfl⟩

/-- The accesses of the next step, oldest first. -/
def accesses (w : Circuit σ) : List Bus.Access := w.traced.step.2.bus.trace.toList

/-- A step of a circuit with a bus that records adds the bytes of the instruction, one after the other,
and then the accesses of the instruction. -/
theorem places_step_traced {v : Circuit (Traced σ)} (running : v.cpu.halted = false)
    (opcode : v.opcode ∈ i.bytes) :
    v.step.2.bus.places = v.bus.places ++
      ((List.range i.length).map (fun k => (.read, v.cpu.pc + UInt16.ofNat k)) ++
        i.touches v.cpu v.argument) := by
  have decoded : Instruction.ofByte v.opcode = i := Instruction.mem_bytes_iff.1 opcode
  obtain ⟨pc, cpu⟩ := v.cpu_fetchOperand i.operandBytes
  have operand : i.touches v.cpu (v.fetch.2.fetchOperand i.operandBytes).1 =
      i.touches v.cpu v.argument := by
    refine touches_congr (fun two => ?_) (fun one => ?_)
    · rw [two]
      rfl
    · rw [one]
      exact (UInt8.toUInt8_toUInt16 _).trans (loByte_word _ _).symm
  rw [step_of_opcode running decoded]
  show (exec i _ (v.fetch.2.fetchOperand i.operandBytes).2).bus.places = _
  rw [places_exec, places_fetchOperand _ i.operandBytes_le_two, cpu, touches_pc, operand,
    List.append_assoc]
  rfl

/-- **A step reads the bytes of the instruction, and then makes the accesses of the instruction.** -/
theorem places_step (running : w.cpu.halted = false) (opcode : w.opcode ∈ i.bytes) :
    w.accesses.map Bus.Access.place =
      (List.range i.length).map (fun k => (.read, w.cpu.pc + UInt16.ofNat k)) ++
        i.touches w.cpu w.argument :=
  places_step_traced (v := w.traced) running opcode

/-! ### The word that a step reads -/

/-- The word that the second and the third access of the next step transfer, the low byte first. -/
def wordRead (w : Circuit σ) : UInt16 :=
  word ((w.accesses.map (·.value)).getD 2 0) ((w.accesses.map (·.value)).getD 1 0)

/-- The accesses of the instruction come behind those that fetch it. -/
theorem accesses_eq (running : w.cpu.halted = false) (opcode : w.opcode ∈ i.bytes) :
    ∃ rest, w.accesses =
      (w.traced.fetch.2.fetchOperand i.operandBytes).2.bus.trace.toList ++ rest := by
  let v := (w.traced.fetch.2.fetchOperand i.operandBytes).2
  -- The work is compared with the same work on a bus that begins to record when all is fetched.
  have start : Alike (fun s t : Traced σ => s.bus = t.bus ∧ s.trace = v.bus.trace ++ t.trace)
      v (Circuit.mk v.cpu v.bus.bus).traced :=
    ⟨v.cpu, rfl, Array.append_empty.symm⟩
  have added := (start.exec (Traced.simulation_append v.bus.trace) i
    (w.traced.fetch.2.fetchOperand i.operandBytes).1).bus.2
  have decoded : Instruction.ofByte w.traced.opcode = i := Instruction.mem_bytes_iff.1 opcode
  rw [accesses, step_of_opcode (w := w.traced) running decoded]
  exact ⟨_, (congrArg Array.toList added).trans Array.toList_append⟩

/-- Behind the first byte of an instruction of three bytes it is the operand. -/
theorem wordRead_of_two (running : w.cpu.halted = false) (opcode : w.opcode ∈ i.bytes)
    (two : i.operandBytes = 2) : w.wordRead = w.argument := by
  obtain ⟨rest, eq⟩ := accesses_eq running opcode
  rw [wordRead, eq, two]
  rfl

/-- Its low byte is the operand of an instruction of two bytes. -/
theorem loByte_wordRead (running : w.cpu.halted = false) (opcode : w.opcode ∈ i.bytes)
    (one : i.operandBytes = 1) : loByte w.wordRead = loByte w.argument := by
  obtain ⟨rest, eq⟩ := accesses_eq running opcode
  rw [wordRead, loByte_word, eq, one]
  exact (loByte_word _ _).symm

/-- The accesses of a step in terms of the word that it reads. -/
theorem touches_wordRead (running : w.cpu.halted = false) (opcode : w.opcode ∈ i.bytes) :
    i.touches w.cpu w.wordRead = i.touches w.cpu w.argument :=
  touches_congr (wordRead_of_two running opcode) (loByte_wordRead running opcode)

end Circuit

end Cabinet
