import Cabinet.Cpu.Step
/-!
# Bursts and interrupts

A burst executes whole instructions until a budget of cycles is used up or the processor halts
(`execute`). Every instruction costs at least four cycles, so a burst ends. An interrupt is a call
from outside (`interrupt`): it wakes a halted processor, and its cost is charged to the next burst.
-/

namespace Cabinet

/-- The sum of two cycle counts, or the greatest count if the sum is greater. -/
@[inline] def addCycles (x y : UInt32) : UInt32 :=
  let s := x + y
  if s < x then 0xFFFFFFFF else s

/-- The cost of acknowledging an interrupt. -/
def interruptCycles : UInt32 := 11

theorem toNat_addCycles (x y : UInt32) :
    (addCycles x y).toNat = min 0xFFFFFFFF (x.toNat + y.toNat) := by
  have hx := x.toNat_lt
  have hy := y.toNat_lt
  simp only [addCycles, UInt32.lt_iff_toNat_lt, UInt32.toNat_add]
  split
  · have : (0xFFFFFFFF : UInt32).toNat = 0xFFFFFFFF := rfl
    omega
  · rw [UInt32.toNat_add]
    omega

namespace Circuit

variable {σ : Type} [Bus σ]

theorem lt_addCycles_stepRunning {used budget : UInt32} (w : Circuit σ) (h : used < budget) :
    used < addCycles used w.stepRunning.1 := by
  have hu := UInt32.lt_iff_toNat_lt.1 h
  have hc := UInt32.le_iff_toNat_le.1 w.four_le_stepRunning
  have hb := budget.toNat_lt
  have h4 : (4 : UInt32).toNat = 4 := rfl
  rw [UInt32.lt_iff_toNat_lt, toNat_addCycles]
  omega

/-- Executes instructions from `used` cycles on, until the budget is reached or the processor halts.
Gives the cycles used. -/
@[specialize] def run (budget used : UInt32) (w : Circuit σ) : UInt32 × Circuit σ :=
  if used < budget ∧ w.cpu.halted = false then
    let r := w.stepRunning
    run budget (addCycles used r.1) r.2
  else (used, w)
termination_by budget.toNat - used.toNat
decreasing_by
  rename_i h
  have hu := UInt32.lt_iff_toNat_lt.1 h.1
  have := UInt32.lt_iff_toNat_lt.1 (lt_addCycles_stepRunning w h.1)
  omega

theorem run_of_lt {budget used : UInt32} {w : Circuit σ} (hu : used < budget)
    (hh : w.cpu.halted = false) :
    run budget used w = run budget (addCycles used w.stepRunning.1) w.stepRunning.2 := by
  rw [run, if_pos ⟨hu, hh⟩]

theorem run_of_not {budget used : UInt32} {w : Circuit σ}
    (h : ¬(used < budget ∧ w.cpu.halted = false)) : run budget used w = (used, w) := by
  rw [run, if_neg h]

/-- A burst: executes whole instructions until at least `budget` cycles are used up, those of an
acknowledged interrupt first, or the processor halts. Gives the cycles used. While a processor is
halted time passes all the same, so a burst that finds it halted uses its budget exactly. -/
@[specialize] def execute (budget : UInt32) (w : Circuit σ) : UInt32 × Circuit σ :=
  let used := w.cpu.pending
  let w := w.mapCpu ({ · with pending := 0 })
  if w.cpu.halted then (budget, w) else run budget used w

theorem execute_of_halted {w : Circuit σ} (h : w.cpu.halted = true) (budget : UInt32) :
    execute budget w = (budget, w.mapCpu ({ · with pending := 0 })) :=
  if_pos h

theorem execute_of_running {w : Circuit σ} (h : w.cpu.halted = false) (budget : UInt32) :
    execute budget w = run budget w.cpu.pending (w.mapCpu ({ · with pending := 0 })) :=
  if_neg (Bool.not_eq_true _ ▸ h)

/-- An interrupt that calls `vector`. Gives whether it was accepted: with interrupts disabled it is
dropped. -/
@[specialize] def interrupt (vector : UInt16) (w : Circuit σ) : Bool × Circuit σ :=
  if w.cpu.inte then
    let w := w.call vector
    (true, w.mapCpu fun cpu =>
      { cpu with inte := false, halted := false, pending := addCycles cpu.pending interruptCycles })
  else (false, w)

theorem interrupt_of_enabled {w : Circuit σ} (h : w.cpu.inte = true) (vector : UInt16) :
    interrupt vector w = (true, (w.call vector).mapCpu fun cpu =>
      { cpu with inte := false, halted := false, pending := addCycles cpu.pending interruptCycles }) :=
  if_pos h

theorem interrupt_of_disabled {w : Circuit σ} (h : w.cpu.inte = false) (vector : UInt16) :
    interrupt vector w = (false, w) :=
  if_neg (Bool.not_eq_true _ ▸ h)

end Circuit

end Cabinet
