import Cabinet.Board
import Cabinet.Proofs.Cpu.Fetch
import Cabinet.Proofs.Cpu.Trace
import Mathlib.Algebra.GroupWithZero.Nat
import Mathlib.Order.Bounds.Basic
/-!
# A burst is so many steps

A burst is written as a loop that adds up costs and stops adding at the greatest count. This module
says what it does in terms of single steps: it makes the least number of steps after which the cycles,
added up exactly, reach the budget or the processor is halted (`Circuit.exists_steps_run`, by induction
on the loop). Since a step that is made costs at least four cycles there is such a number, and since it
costs at most eighteen the budget is exceeded by seventeen at most (`Circuit.execute_steps`).
-/

namespace Cabinet.Circuit

variable {σ : Type} [Bus σ]

/-! ### Single steps -/

/-- The circuit after `k` steps. -/
def after : Circuit σ → Nat → Circuit σ
  | w, 0 => w
  | w, k + 1 => w.step.2.after k

/-- What each of the first `k` steps costs. -/
def costs : Circuit σ → Nat → List Nat
  | _, 0 => []
  | w, k + 1 => w.step.1.toNat :: w.step.2.costs k

theorem step_of_running {w : Circuit σ} (h : w.cpu.halted = false) : w.step = w.stepRunning :=
  if_neg (Bool.not_eq_true _ ▸ h)

theorem step_of_halted {w : Circuit σ} (h : w.cpu.halted = true) : w.step = (0, w) := if_pos h

/-- What one step leaves as it is, any number of steps does. -/
theorem after_of_step {w : Circuit σ} (h : w.step.2 = w) (k : Nat) : w.after k = w := by
  induction k with
  | zero => rfl
  | succ k ih => rw [after, h, ih]

theorem after_of_halted {w : Circuit σ} (h : w.cpu.halted = true) (k : Nat) : w.after k = w := by
  refine after_of_step ?_ k
  rw [step_of_halted h]

/-- The circuit after one step more. -/
theorem after_succ (w : Circuit σ) (k : Nat) : w.after (k + 1) = (w.after k).step.2 := by
  induction k generalizing w with
  | zero => rfl
  | succ k ih => rw [after, ih, after]

/-- The costs of one step more. -/
theorem costs_succ (w : Circuit σ) (k : Nat) :
    w.costs (k + 1) = w.costs k ++ [(w.after k).step.1.toNat] := by
  induction k generalizing w with
  | zero => rfl
  | succ k ih => rw [costs, ih, costs, after, List.cons_append]

theorem step_le_eighteen (w : Circuit σ) : w.step.1.toNat ≤ 18 := by
  cases hh : w.cpu.halted with
  | true =>
    rw [step_of_halted hh]
    exact Nat.zero_le 18
  | false =>
    rw [step_of_running hh]
    exact UInt32.le_iff_toNat_le.1 w.stepRunning_le_eighteen

/-- As long as the processor is not halted every step costs at least four cycles. -/
theorem four_mul_le_sum_costs {w : Circuit σ} {k : Nat} (h : (w.after k).cpu.halted = false) :
    4 * k ≤ (w.costs k).sum := by
  induction k generalizing w with
  | zero => exact Nat.le_refl 0
  | succ k ih =>
    have running : w.cpu.halted = false := by
      by_contra halted
      rw [Bool.not_eq_false] at halted
      rw [after_of_halted halted, halted] at h
      cases h
    have first := UInt32.le_iff_toNat_le.1 w.four_le_stepRunning
    have rest := ih h
    rw [step_of_running running] at rest
    rw [costs, step_of_running running, List.sum_cons]
    have four : (4 : UInt32).toNat = 4 := rfl
    omega

/-! ### When a burst is over -/

/-- With `used` cycles at first, the budget is reached after `k` steps, or the processor is halted. -/
def Over (budget : UInt32) (used : Nat) (w : Circuit σ) (k : Nat) : Prop :=
  budget.toNat ≤ used + (w.costs k).sum ∨ (w.after k).cpu.halted = true

variable {budget : UInt32} {w : Circuit σ} {used k : Nat}

theorem over_zero : Over budget used w 0 ↔ budget.toNat ≤ used ∨ w.cpu.halted = true := Iff.rfl

theorem over_succ (running : w.cpu.halted = false) :
    Over budget used w (k + 1) ↔
      Over budget (used + w.stepRunning.1.toNat) w.stepRunning.2 k := by
  rw [Over, Over, costs, after, step_of_running running, List.sum_cons, Nat.add_assoc]

/-- Whether a count stops at the greatest one makes no difference: no budget is greater. -/
theorem over_saturated : Over budget (min (2 ^ 32 - 1) used) w k ↔ Over budget used w k := by
  have fits := budget.toNat_lt
  refine or_congr ?_ Iff.rfl
  omega

/-- Before its end a burst has not reached the budget and is not halted. -/
theorem lt_of_isLeast_over (h : IsLeast {k | Over budget used w k} (k + 1)) :
    used + (w.costs k).sum < budget.toNat ∧ (w.after k).cpu.halted = false := by
  have goes : ¬Over budget used w k := by
    intro ended
    exact absurd (h.2 ended) (Nat.not_succ_le_self k)
  unfold Over at goes
  push Not at goes
  exact ⟨goes.1, Bool.eq_false_iff.2 goes.2⟩

/-- A burst exceeds its budget by less than one instruction. -/
theorem used_le_of_isLeast_over (h : IsLeast {k | Over budget used w k} k) :
    used + (w.costs k).sum ≤ max used (budget.toNat + 17) := by
  cases k with
  | zero => exact Nat.le_max_left used _
  | succ k =>
    have before := (lt_of_isLeast_over h).1
    have last := (w.after k).step_le_eighteen
    rw [costs_succ, List.sum_append, List.sum_singleton]
    omega

/-- A burst makes at most one step for every four cycles of its budget, and one for the rest. -/
theorem steps_lt_of_isLeast_over (h : IsLeast {k | Over budget used w k} k) :
    4 * k < budget.toNat + 4 := by
  cases k with
  | zero => omega
  | succ k =>
    obtain ⟨before, running⟩ := lt_of_isLeast_over h
    have each := four_mul_le_sum_costs running
    omega

/-! ### The loop of a burst -/

/-- **The loop makes the steps that it takes**, and no more: the induction is on the loop, and each
round of it is one step more in front of those of the rest. -/
theorem exists_steps_run (budget used : UInt32) (w : Circuit σ) :
    ∃ k, IsLeast {k | Over budget used.toNat w k} k ∧ (run budget used w).2 = w.after k ∧
      (run budget used w).1.toNat = min (2 ^ 32 - 1) (used.toNat + (w.costs k).sum) := by
  induction used, w using Circuit.run.induct (σ := σ) budget
  case case1 used w hw r ih =>
    obtain ⟨k, ⟨ended, least⟩, circuit, cycles⟩ := ih
    have saturated : (addCycles used r.1).toNat = min (2 ^ 32 - 1) (used.toNat + r.1.toNat) :=
      toNat_addCycles used r.1
    simp only [saturated, over_saturated] at ended least cycles
    refine ⟨k + 1, ⟨(over_succ hw.2).2 ended, ?_⟩, ?_, ?_⟩
    · intro j hj
      cases j with
      | zero =>
        obtain reached | halted := over_zero.1 hj
        · exact absurd (UInt32.lt_iff_toNat_lt.1 hw.1) (Nat.not_lt.2 reached)
        · exact absurd halted (by rw [hw.2]; decide)
      | succ j => exact Nat.succ_le_succ (least ((over_succ hw.2).1 hj))
    · rw [run_of_lt hw.1 hw.2, after, step_of_running hw.2]
      exact circuit
    · rw [run_of_lt hw.1 hw.2, costs, step_of_running hw.2, List.sum_cons]
      refine cycles.trans ?_
      show min (2 ^ 32 - 1) (min (2 ^ 32 - 1) (used.toNat + w.stepRunning.1.toNat) +
        (w.stepRunning.2.costs k).sum) = _
      omega
  case case2 used w hw =>
    have fits := used.toNat_lt
    have ended : Over budget used.toNat w 0 := by
      rw [over_zero, ← Nat.not_lt, ← UInt32.lt_iff_toNat_lt, ← Bool.not_eq_false]
      exact not_and_or.1 hw
    refine ⟨0, ⟨ended, fun j _ => Nat.zero_le j⟩, ?_, ?_⟩
    · rw [run_of_not hw]
      rfl
    · rw [run_of_not hw]
      show used.toNat = min (2 ^ 32 - 1) (used.toNat + 0)
      omega

/-! ### Bursts -/

/-- The circuit without cycles that wait to be charged. -/
def uncharged (w : Circuit σ) : Circuit σ := w.mapCpu ({ · with pending := 0 })

theorem exists_steps_execute (running : w.cpu.halted = false) (budget : UInt32) :
    ∃ k, IsLeast {k | Over budget w.cpu.pending.toNat w.uncharged k} k ∧
      (w.execute budget).2 = w.uncharged.after k ∧
      (w.execute budget).1.toNat =
        min (2 ^ 32 - 1) (w.cpu.pending.toNat + (w.uncharged.costs k).sum) := by
  rw [execute_of_running running]
  exact exists_steps_run budget w.cpu.pending w.uncharged

/-- A burst of one cycle is one step. -/
theorem execute_one {w : Circuit σ} (settled : w.cpu.pending = 0) :
    (w.execute 1).2 = w.step.2 := by
  have unchanged : w.mapCpu ({ · with pending := 0 }) = w := by
    rw [← settled]
    rfl
  cases halted : w.cpu.halted with
  | true => rw [execute_of_halted halted, step_of_halted halted, unchanged]
  | false =>
    have spent : ¬addCycles 0 w.stepRunning.1 < 1 := by
      have cost := UInt32.le_iff_toNat_le.1 w.four_le_stepRunning
      have four : (4 : UInt32).toNat = 4 := rfl
      have one : (1 : UInt32).toNat = 1 := rfl
      have zero : (0 : UInt32).toNat = 0 := rfl
      rw [UInt32.lt_iff_toNat_lt, toNat_addCycles]
      omega
    rw [execute_of_running halted, unchanged, settled, run_of_lt (by decide) halted,
      run_of_not fun h => spent h.1, step_of_running halted]

/-- A burst reaches its budget, unless it ends with the processor halted. -/
theorem le_execute_or_halted (w : Circuit σ) (budget : UInt32) :
    budget ≤ (w.execute budget).1 ∨ (w.execute budget).2.cpu.halted = true := by
  cases hh : w.cpu.halted with
  | true =>
    rw [execute_of_halted hh]
    exact .inr hh
  | false =>
    obtain ⟨k, ⟨reached | halted, -⟩, circuit, cycles⟩ := exists_steps_execute hh budget
    · have fits := budget.toNat_lt
      left
      rw [UInt32.le_iff_toNat_le, cycles]
      omega
    · exact .inr (circuit ▸ halted)

/-- A burst uses no more than what waits to be charged, or its budget and seventeen cycles. -/
theorem execute_le (w : Circuit σ) (budget : UInt32) :
    (w.execute budget).1.toNat ≤ max w.cpu.pending.toNat (budget.toNat + 17) := by
  cases hh : w.cpu.halted with
  | true =>
    rw [execute_of_halted hh]
    show budget.toNat ≤ _
    omega
  | false =>
    obtain ⟨k, least, -, cycles⟩ := exists_steps_execute hh budget
    rw [cycles]
    exact (Nat.min_le_right ..).trans (used_le_of_isLeast_over least)

/-- A processor that is halted leaves the bus alone. -/
theorem trace_execute_of_halted (halted : w.cpu.halted = true) (budget : UInt32) :
    (w.traced.execute budget).2.bus.trace = #[] := by
  rw [execute_of_halted (show w.traced.cpu.halted = true from halted)]
  rfl

/-- **A burst is so many single steps.** Whatever the bus does, a burst that finds the processor halted
gives its budget and makes no access; any other one makes the least number of steps, those of a
processor with no cycles left to be charged, after which the cycles reach the budget or the processor
is halted, and gives these cycles or the greatest count. So a burst ends, it reaches its budget unless
it ends halted, and it exceeds it by less than one instruction. -/
theorem execute_steps (w : Circuit σ) (budget : UInt32) :
    (w.cpu.halted = true →
      w.execute budget = (budget, w.uncharged) ∧ (w.traced.execute budget).2.bus.trace = #[]) ∧
    (w.cpu.halted = false →
      ∃ k, IsLeast {k | budget.toNat ≤ w.cpu.pending.toNat + (w.uncharged.costs k).sum ∨
          (w.uncharged.after k).cpu.halted = true} k ∧
        4 * k < budget.toNat + 4 ∧
        (w.execute budget).2 = w.uncharged.after k ∧
        (w.execute budget).1.toNat =
          min (2 ^ 32 - 1) (w.cpu.pending.toNat + (w.uncharged.costs k).sum)) ∧
    (budget ≤ (w.execute budget).1 ∨ (w.execute budget).2.cpu.halted = true) ∧
    (w.execute budget).1.toNat ≤ max w.cpu.pending.toNat (budget.toNat + 17) := by
  refine ⟨fun halted => ?_, fun running => ?_, le_execute_or_halted w budget, execute_le w budget⟩
  · exact ⟨execute_of_halted halted budget, trace_execute_of_halted halted budget⟩
  · obtain ⟨k, least, circuit, cycles⟩ := exists_steps_execute running budget
    exact ⟨k, least, steps_lt_of_isLeast_over least, circuit, cycles⟩

/-- A processor on a board without memory, where every byte is NOP, with nearly the greatest count of
cycles to be charged. -/
def overdue : Circuit Board := { cpu := { pending := 0xFFFFFFFD }, bus := { memory := .empty } }

theorem step_overdue :
    overdue.uncharged.step = (4, { cpu := { pc := 1 }, bus := { memory := .empty } }) := by
  have decoded : Instruction.ofByte 0x00 = .nop := Instruction.ofByte_eq_decode _
  have read : Bus.read overdue.uncharged.cpu.pc overdue.uncharged.bus =
      (0x00, { memory := .empty }) := rfl
  exact (step_of_running rfl).trans (stepRunning_of_read read decoded rfl)

/-- One NOP takes the count to the greatest one, which ends the burst. -/
theorem overdue_makes_one_step :
    overdue.cpu.halted = false ∧
      IsLeast {k | 0xFFFFFFFF ≤ 0xFFFFFFFD + (overdue.uncharged.costs k).sum ∨
        (overdue.uncharged.after k).cpu.halted = true} 1 ∧
      (overdue.execute 0xFFFFFFFF).1 = 0xFFFFFFFF ∧
      (overdue.execute 0xFFFFFFFF).2.cpu.pc = 0x0001 ∧
      (overdue.mapCpu ({ · with halted := true })).execute 7 =
        (7, (overdue.mapCpu ({ · with halted := true })).uncharged) := by
  obtain ⟨-, running, -, -⟩ := execute_steps overdue 0xFFFFFFFF
  obtain ⟨asleep, -⟩ := execute_steps (overdue.mapCpu ({ · with halted := true })) 7
  obtain ⟨k, least, -, circuit, cycles⟩ := running rfl
  have costs : overdue.uncharged.costs 1 = [4] := by
    show [overdue.uncharged.step.1.toNat] = [4]
    rw [step_overdue]
    rfl
  have one : k = 1 := by
    have le : k ≤ 1 := by
      refine least.2 (.inl ?_)
      rw [costs]
      decide
    have ne : k ≠ 0 := by
      rintro rfl
      obtain reached | halted := least.1
      · exact absurd reached (by decide)
      · cases halted
    omega
  subst one
  refine ⟨rfl, least, ?_, ?_, (asleep rfl).1⟩
  · rw [← UInt32.toNat_inj, cycles, costs]
    rfl
  · rw [circuit, after, step_overdue]
    rfl

end Cabinet.Circuit
