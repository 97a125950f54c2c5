import Cabinet.Cpu.Run
/-!
# What is executed

What is executed next stands at the program counter: the first byte of the instruction, and behind it
its operand, if it has one. So a step is the work of an instruction that is found by reading
(`Circuit.stepRunning_of_read`), and a burst begins with that step.
-/

namespace Cabinet.Circuit

variable {σ : Type} [Bus σ] {w : Circuit σ} {s s' s'' : σ} {byte operand lo hi : UInt8} {i : Instruction}

theorem fetch_of_read (h : Bus.read w.cpu.pc w.bus = (byte, s)) :
    w.fetch = (byte, ⟨w.cpu.advance 1, s⟩) := by
  simp only [fetch, load, h]
  rfl

/-- A step of an instruction without an operand. -/
theorem stepRunning_of_read (h : Bus.read w.cpu.pc w.bus = (byte, s))
    (decoded : Instruction.ofByte byte = i) (none : i.operandBytes = 0) :
    w.stepRunning = (i.cycles w.cpu.flags, exec i 0 ⟨w.cpu.advance 1, s⟩) := by
  simp only [stepRunning, fetch_of_read h, decoded, none, fetchOperand]
  rfl

/-- A step of an instruction with an operand byte. -/
theorem stepRunning_of_read_operand (h : Bus.read w.cpu.pc w.bus = (byte, s))
    (decoded : Instruction.ofByte byte = i) (one : i.operandBytes = 1)
    (h' : Bus.read (w.cpu.pc + 1) s = (operand, s')) :
    w.stepRunning =
      (i.cycles w.cpu.flags, exec i operand.toUInt16 ⟨(w.cpu.advance 1).advance 1, s'⟩) := by
  have second : (Circuit.mk (w.cpu.advance 1) s).fetch =
      (operand, ⟨(w.cpu.advance 1).advance 1, s'⟩) := fetch_of_read h'
  simp only [stepRunning, fetch_of_read h, decoded, one, fetchOperand, second]
  rfl

/-- A step of an instruction with two operand bytes, the low one first. -/
theorem stepRunning_of_read_word (h : Bus.read w.cpu.pc w.bus = (byte, s))
    (decoded : Instruction.ofByte byte = i) (two : i.operandBytes = 2)
    (h' : Bus.read (w.cpu.pc + 1) s = (lo, s')) (h'' : Bus.read (w.cpu.pc + 1 + 1) s' = (hi, s'')) :
    w.stepRunning = (i.cycles w.cpu.flags,
      exec i (word hi lo) ⟨((w.cpu.advance 1).advance 1).advance 1, s''⟩) := by
  have second : (Circuit.mk (w.cpu.advance 1) s).fetch =
      (lo, ⟨(w.cpu.advance 1).advance 1, s'⟩) := fetch_of_read h'
  have third : (Circuit.mk ((w.cpu.advance 1).advance 1) s').fetch =
      (hi, ⟨((w.cpu.advance 1).advance 1).advance 1, s''⟩) := fetch_of_read h''
  simp only [stepRunning, fetch_of_read h, decoded, two, fetchOperand, second, third]
  rfl

end Cabinet.Circuit
