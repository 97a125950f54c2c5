import Cabinet.Cpu.Instruction
import Cabinet.Cpu.Bus
/-!
# Executing one instruction

A `Circuit` is a processor wired to a bus. `step` executes one whole instruction: the first byte is
fetched and decoded, then the operand bytes are fetched, then the instruction does its work, and its
cost is charged as a whole. So the fetches come before every other access, and the program counter
already points behind the instruction when the work is done.
-/

namespace Cabinet

/-- A processor and the bus it is wired to. -/
structure Circuit (σ : Type) where
  /-- The processor. -/
  cpu : Cpu
  /-- The state of the bus. -/
  bus : σ

namespace Circuit

variable {σ : Type} [Bus σ]

/-- Reads a byte of memory. -/
@[inline] def load (w : Circuit σ) (address : UInt16) : UInt8 × Circuit σ :=
  let (v, bus) := Bus.read address w.bus
  (v, { w with bus })

/-- Writes a byte of memory. -/
@[inline] def store (w : Circuit σ) (address : UInt16) (v : UInt8) : Circuit σ :=
  { w with bus := Bus.write address v w.bus }

/-- Changes the processor only. -/
@[inline] def mapCpu (w : Circuit σ) (f : Cpu → Cpu) : Circuit σ := { w with cpu := f w.cpu }

/-- Reads the byte at the program counter and moves on. -/
@[inline] def fetch (w : Circuit σ) : UInt8 × Circuit σ :=
  let (v, w) := w.load w.cpu.pc
  (v, w.mapCpu (·.advance 1))

/-- Fetches `n` operand bytes, at most two, low byte first. -/
@[inline] def fetchOperand (w : Circuit σ) (n : Nat) : UInt16 × Circuit σ :=
  match n with
  | 0 => (0, w)
  | 1 => let (lo, w) := w.fetch; (lo.toUInt16, w)
  | _ =>
    let (lo, w) := w.fetch
    let (hi, w) := w.fetch
    (word hi lo, w)

/-- The value of a byte operand. -/
@[inline] def operand (w : Circuit σ) : Operand → UInt8 × Circuit σ
  | .reg r => (w.cpu.reg r, w)
  | .mem => w.load w.cpu.hl

/-- Sets a byte operand. -/
@[inline] def setOperand (w : Circuit σ) (o : Operand) (v : UInt8) : Circuit σ :=
  match o with
  | .reg r => w.mapCpu (·.setReg r v)
  | .mem => w.store w.cpu.hl v

/-- Pushes a word: the high byte below the stack pointer, the low byte below that. -/
@[inline] def push (w : Circuit σ) (v : UInt16) : Circuit σ :=
  let w := w.store (w.cpu.sp - 1) (hiByte v)
  let w := w.store (w.cpu.sp - 2) (loByte v)
  w.mapCpu fun cpu => { cpu with sp := cpu.sp - 2 }

/-- Pops a word: the low byte at the stack pointer, the high byte above it. -/
@[inline] def pop (w : Circuit σ) : UInt16 × Circuit σ :=
  let (lo, w) := w.load w.cpu.sp
  let (hi, w) := w.load (w.cpu.sp + 1)
  (word hi lo, w.mapCpu fun cpu => { cpu with sp := cpu.sp + 2 })

/-- Continues at `target`. -/
@[inline] def jump (w : Circuit σ) (target : UInt16) : Circuit σ :=
  w.mapCpu ({ · with pc := target })

/-- Pushes the program counter and continues at `target`. -/
@[inline] def call (w : Circuit σ) (target : UInt16) : Circuit σ :=
  (w.push w.cpu.pc).jump target

/-- Continues at the address on top of the stack. -/
@[inline] def ret (w : Circuit σ) : Circuit σ :=
  let (target, w) := w.pop
  w.jump target

/-- The address of a port: its number on both halves of the address bus. -/
@[inline] def portAddress (n : UInt8) : UInt16 := word n n

/-- The work of an instruction whose operand bytes have been fetched. -/
@[specialize] def exec (i : Instruction) (arg : UInt16) (w : Circuit σ) : Circuit σ :=
  match i with
  | .nop => w
  | .hlt => w.mapCpu ({ · with halted := true })
  | .mov dst src => let (v, w) := w.operand src; w.setOperand dst v
  | .mvi dst => w.setOperand dst (loByte arg)
  | .lxi dst => w.mapCpu (·.setPair dst arg)
  | .stax .bc => w.store w.cpu.bc w.cpu.a
  | .stax .de => w.store w.cpu.de w.cpu.a
  | .ldax .bc => let (v, w) := w.load w.cpu.bc; w.mapCpu ({ · with a := v })
  | .ldax .de => let (v, w) := w.load w.cpu.de; w.mapCpu ({ · with a := v })
  | .shld => (w.store arg w.cpu.l).store (arg + 1) w.cpu.h
  | .lhld =>
    let (l, w) := w.load arg
    let (h, w) := w.load (arg + 1)
    w.mapCpu ({ · with h, l })
  | .sta => w.store arg w.cpu.a
  | .lda => let (v, w) := w.load arg; w.mapCpu ({ · with a := v })
  | .xchg => w.mapCpu fun cpu => { cpu with d := cpu.h, e := cpu.l, h := cpu.d, l := cpu.e }
  | .input =>
    let (v, bus) := Bus.input (portAddress (loByte arg)) w.bus
    { w with bus }.mapCpu ({ · with a := v })
  | .output => { w with bus := Bus.output (portAddress (loByte arg)) w.cpu.a w.bus }
  | .alu op src => let (v, w) := w.operand src; w.mapCpu (·.alu op v)
  | .aluImmediate op => w.mapCpu (·.alu op (loByte arg))
  | .inr dst =>
    let (v, w) := w.operand dst
    let (v, flags) := Alu.increment v w.cpu.flags
    (w.mapCpu ({ · with flags })).setOperand dst v
  | .dcr dst =>
    let (v, w) := w.operand dst
    let (v, flags) := Alu.decrement v w.cpu.flags
    (w.mapCpu ({ · with flags })).setOperand dst v
  | .inx dst => w.mapCpu fun cpu => cpu.setPair dst (cpu.pair dst + 1)
  | .dcx dst => w.mapCpu fun cpu => cpu.setPair dst (cpu.pair dst - 1)
  | .dad src => w.mapCpu fun cpu => cpu.dad (cpu.pair src)
  | .rlc => w.mapCpu (·.rlc)
  | .rrc => w.mapCpu (·.rrc)
  | .ral => w.mapCpu (·.ral)
  | .rar => w.mapCpu (·.rar)
  | .daa => w.mapCpu (·.daa)
  | .cma => w.mapCpu fun cpu => { cpu with a := ~~~cpu.a }
  | .stc => w.mapCpu (·.setCarry true)
  | .cmc => w.mapCpu fun cpu => cpu.setCarry (!cpu.flags.carry)
  | .jmp => w.jump arg
  | .jcc cond => if cond.holds w.cpu.flags then w.jump arg else w
  | .call => w.call arg
  | .ccc cond => if cond.holds w.cpu.flags then w.call arg else w
  | .ret => w.ret
  | .rcc cond => if cond.holds w.cpu.flags then w.ret else w
  | .rst n => w.call (8 * UInt16.ofNat n)
  | .pchl => w.jump w.cpu.hl
  | .push src => w.push (w.cpu.stackPair src)
  | .pop dst => let (v, w) := w.pop; w.mapCpu (·.setStackPair dst v)
  | .xthl =>
    let (lo, w) := w.load w.cpu.sp
    let (hi, w) := w.load (w.cpu.sp + 1)
    let w := w.store w.cpu.sp w.cpu.l
    let w := w.store (w.cpu.sp + 1) w.cpu.h
    w.mapCpu ({ · with h := hi, l := lo })
  | .sphl => w.mapCpu fun cpu => { cpu with sp := cpu.hl }
  | .di => w.mapCpu ({ · with inte := false })
  | .ei => w.mapCpu ({ · with inte := true })

/-- Executes one instruction of a processor that is not halted; gives its cost. -/
@[specialize] def stepRunning (w : Circuit σ) : UInt32 × Circuit σ :=
  let first := w.fetch
  let i := Instruction.ofByte first.1
  let arg := first.2.fetchOperand i.operandBytes
  (i.cycles arg.2.cpu.flags, exec i arg.1 arg.2)

/-- Executes one instruction; gives its cost. A halted processor does nothing, at no cost. -/
@[specialize] def step (w : Circuit σ) : UInt32 × Circuit σ :=
  if w.cpu.halted then (0, w) else w.stepRunning

theorem four_le_stepRunning (w : Circuit σ) : 4 ≤ w.stepRunning.1 := by
  simp only [stepRunning, Instruction.four_le_cycles]

theorem stepRunning_le_eighteen (w : Circuit σ) : w.stepRunning.1 ≤ 18 := by
  simp only [stepRunning, Instruction.cycles_le_eighteen]

end Circuit

end Cabinet
