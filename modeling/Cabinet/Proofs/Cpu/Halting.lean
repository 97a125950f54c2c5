import Cabinet.Proofs.Cpu.Arithmetic
import Cabinet.Proofs.Cpu.Burst
import Cabinet.Proofs.Cpu.Encoding
import Cabinet.Proofs.Cpu.Pending
/-!
# What halts a processor

Of all instructions HLT alone halts the processor (`Circuit.halted_step_iff`), and it is one byte. So a
burst that does not find the processor halted leaves it halted if and only if one of its steps is HLT
(`Circuit.halted_after_iff`), and then that step is the last one. It is begun within the budget and
costs seven cycles, so such a burst exceeds the budget by six at most.
-/

namespace Cabinet

theorem Instruction.ofByte_eq_hlt_iff (byte : UInt8) : ofByte byte = .hlt ↔ byte = 0x76 := by
  rw [ofByte_eq_decode]
  revert byte
  exact forall_byte (by decide +kernel)

namespace Circuit

variable {σ : Type} [Bus σ] {w : Circuit σ} {budget : UInt32} {used k : Nat}

/-! ### One step -/

theorem halted_exec_iff (running : w.cpu.halted = false) (i : Instruction) (arg : UInt16) :
    (exec i arg w).cpu.halted = true ↔ i = .hlt := by
  constructor
  · intro halted
    by_contra other
    have kept : (exec i arg w).cpu.halted = w.cpu.halted := congrArg Prod.fst (standby_exec other arg w)
    rw [kept, running] at halted
    cases halted
  · rintro rfl
    rfl

/-- **HLT alone halts the processor.** -/
theorem halted_step_iff (running : w.cpu.halted = false) :
    w.step.2.cpu.halted = true ↔ w.opcode = 0x76 := by
  have fetched : (w.fetch.2.fetchOperand (Instruction.ofByte w.opcode).operandBytes).2.cpu.halted =
      false := by
    rw [halted_fetchOperand]
    exact running
  rw [step_of_opcode running rfl, halted_exec_iff fetched, Instruction.ofByte_eq_hlt_iff]

theorem cost_hlt (running : w.cpu.halted = false) (hlt : w.opcode = 0x76) : w.step.1 = 7 := by
  rw [step_of_opcode running ((Instruction.ofByte_eq_hlt_iff _).2 hlt)]
  rfl

/-! ### The steps of a burst -/

/-- Before each of its steps a burst is not halted. -/
theorem running_of_lt (least : IsLeast {k | Over budget used w k} k) {j : Nat} (lt : j < k) :
    (w.after j).cpu.halted = false := by
  by_contra halted
  rw [Bool.not_eq_false] at halted
  exact absurd (least.2 (.inr halted)) (Nat.not_le.2 lt)

/-- **A burst ends halted if and only if one of its steps is HLT.** -/
theorem halted_after_iff (running : w.cpu.halted = false)
    (least : IsLeast {k | Over budget used w k} k) :
    (w.after k).cpu.halted = true ↔ ∃ j < k, (w.after j).opcode = 0x76 := by
  constructor
  · intro halted
    cases k with
    | zero => exact absurd (running.symm.trans halted) Bool.noConfusion
    | succ j =>
      rw [after_succ] at halted
      exact ⟨j, Nat.lt_succ_self j, (halted_step_iff (running_of_lt least (Nat.lt_succ_self j))).1 halted⟩
  · rintro ⟨j, lt, hlt⟩
    have halted : (w.after (j + 1)).cpu.halted = true := by
      rw [after_succ, halted_step_iff (running_of_lt least lt)]
      exact hlt
    -- No step is made by a processor that is halted, so HLT was the last step.
    have last : k = j + 1 := Nat.le_antisymm (least.2 (.inr halted)) lt
    rw [last]
    exact halted

/-- A burst that ends halted exceeds its budget by less than the cost of HLT. -/
theorem used_le_of_halted (running : w.cpu.halted = false)
    (least : IsLeast {k | Over budget used w k} k) (halted : (w.after k).cpu.halted = true) :
    used + (w.costs k).sum ≤ budget.toNat + 6 := by
  cases k with
  | zero => exact absurd (running.symm.trans halted) Bool.noConfusion
  | succ j =>
    obtain ⟨within, awake⟩ := lt_of_isLeast_over least
    rw [after_succ, halted_step_iff awake] at halted
    have seven : (w.after j).step.1.toNat = 7 := congrArg UInt32.toNat (cost_hlt awake halted)
    rw [costs_succ, List.sum_append, List.sum_singleton, seven]
    omega

end Circuit

end Cabinet
