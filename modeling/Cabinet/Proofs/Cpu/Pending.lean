import Cabinet.Cpu.Run
/-!
# What instructions do not touch

Whether the processor is halted, and the cycles of an acknowledged interrupt that no burst has been
charged for, are on standby while instructions are executed: none but HLT touches them
(`standby_exec`), and HLT leaves the cycles (`pending_exec`). A burst leaves no such cycles
(`pending_execute`), so an interrupt after a burst leaves none or, if it is accepted, those of one
acknowledge (`settled_interrupt`).
-/

namespace Cabinet

namespace Cpu

/-- What no instruction but HLT touches. -/
def standby (cpu : Cpu) : Bool × UInt32 := (cpu.halted, cpu.pending)

@[simp] theorem standby_setReg (cpu : Cpu) (r : Reg) (v : UInt8) :
    (cpu.setReg r v).standby = cpu.standby := by
  cases r <;> rfl

@[simp] theorem standby_setPair (cpu : Cpu) (p : Pair) (v : UInt16) :
    (cpu.setPair p v).standby = cpu.standby := by
  cases p <;> rfl

@[simp] theorem standby_setStackPair (cpu : Cpu) (p : StackPair) (v : UInt16) :
    (cpu.setStackPair p v).standby = cpu.standby := by
  cases p <;> rfl

end Cpu

namespace Circuit

variable {σ : Type} [Bus σ]

/-! ### Accesses -/

@[simp] theorem cpu_operand (w : Circuit σ) (o : Operand) : (w.operand o).2.cpu = w.cpu := by
  cases o <;> rfl

@[simp] theorem standby_setOperand (w : Circuit σ) (o : Operand) (v : UInt8) :
    (w.setOperand o v).cpu.standby = w.cpu.standby := by
  cases o with
  | reg r => exact w.cpu.standby_setReg r v
  | mem => rfl

@[simp] theorem standby_fetchOperand (w : Circuit σ) (n : Nat) :
    (w.fetchOperand n).2.cpu.standby = w.cpu.standby := by
  match n with
  | 0 | 1 | _ + 2 => rfl

theorem pending_fetchOperand (w : Circuit σ) (n : Nat) :
    (w.fetchOperand n).2.cpu.pending = w.cpu.pending :=
  congrArg Prod.snd (w.standby_fetchOperand n)

theorem halted_fetchOperand (w : Circuit σ) (n : Nat) :
    (w.fetchOperand n).2.cpu.halted = w.cpu.halted :=
  congrArg Prod.fst (w.standby_fetchOperand n)

/-! ### Instructions -/

/-- **No instruction but HLT** touches the halt flip-flop or the pending cycles. -/
theorem standby_exec {i : Instruction} (other : i ≠ .hlt) (arg : UInt16) (w : Circuit σ) :
    (exec i arg w).cpu.standby = w.cpu.standby := by
  cases i with
  | hlt => exact absurd rfl other
  | mov dst src => exact (standby_setOperand ..).trans (congrArg Cpu.standby (w.cpu_operand src))
  | inr dst | dcr dst =>
    refine (standby_setOperand ..).trans ?_
    show (w.operand dst).2.cpu.standby = _
    rw [cpu_operand]
  | mvi dst => exact standby_setOperand ..
  | lxi dst | inx dst | dcx dst => exact Cpu.standby_setPair ..
  | pop dst => exact Cpu.standby_setStackPair ..
  | stax p | ldax p => cases p <;> rfl
  | alu op src =>
    show (w.operand src).2.cpu.standby = _
    rw [cpu_operand]
  | jcc cond | ccc cond | rcc cond =>
    simp only [exec]
    split <;> rfl
  | _ => rfl

/-- **No instruction touches the pending cycles.** -/
theorem pending_exec (i : Instruction) (arg : UInt16) (w : Circuit σ) :
    (exec i arg w).cpu.pending = w.cpu.pending := by
  by_cases other : i = .hlt
  · subst other
    rfl
  · exact congrArg Prod.snd (standby_exec other arg w)

theorem pending_stepRunning (w : Circuit σ) : w.stepRunning.2.cpu.pending = w.cpu.pending := by
  rw [stepRunning, pending_exec, pending_fetchOperand]
  rfl

/-! ### Bursts and interrupts -/

theorem pending_run (budget used : UInt32) (w : Circuit σ) :
    (w.run budget used).2.cpu.pending = w.cpu.pending := by
  induction used, w using Circuit.run.induct (σ := σ) budget
  case case1 used w hw r ih =>
    rw [show r = w.stepRunning from rfl, pending_stepRunning] at ih
    rw [run_of_lt hw.1 hw.2, ih]
  case case2 used w hw => rw [run_of_not hw]

/-- **A burst leaves no cycles to be charged.** -/
theorem pending_execute (budget : UInt32) (w : Circuit σ) :
    (w.execute budget).2.cpu.pending = 0 := by
  cases hh : w.cpu.halted with
  | true => rw [execute_of_halted hh]; rfl
  | false => rw [execute_of_running hh, pending_run]; rfl

/-- No cycles wait to be charged, or an interrupt has just been accepted: it wakes the processor, and
disables further ones. -/
def Settled (w : Circuit σ) : Prop :=
  w.cpu.pending = 0 ∨
    w.cpu.pending = interruptCycles ∧ w.cpu.halted = false ∧ w.cpu.inte = false

omit [Bus σ] in
theorem Settled.pending {w : Circuit σ} (h : w.Settled) :
    w.cpu.pending = 0 ∨ w.cpu.pending = interruptCycles :=
  h.imp_right And.left

omit [Bus σ] in
theorem pending_le {w : Circuit σ} (h : w.cpu.pending = 0 ∨ w.cpu.pending = interruptCycles) :
    w.cpu.pending.toNat ≤ 11 := by
  obtain none | eleven := h
  · rw [none]
    decide
  · rw [eleven]
    decide

theorem settled_execute (budget : UInt32) (w : Circuit σ) : (w.execute budget).2.Settled :=
  .inl (pending_execute budget w)

/-- An interrupt after a burst leaves the processor settled. -/
theorem settled_interrupt {w : Circuit σ} (hw : w.cpu.pending = 0) (vector : UInt16) :
    (w.interrupt vector).2.Settled := by
  cases hi : w.cpu.inte with
  | true =>
    rw [interrupt_of_enabled hi]
    refine .inr ⟨?_, rfl, rfl⟩
    show addCycles w.cpu.pending interruptCycles = _
    rw [hw]
    rfl
  | false =>
    rw [interrupt_of_disabled hi]
    exact .inl hw

end Circuit

end Cabinet
