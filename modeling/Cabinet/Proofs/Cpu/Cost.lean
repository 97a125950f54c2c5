import Cabinet.Proofs.Cpu.Halting
import Cabinet.Proofs.Cpu.Traffic
/-!
# What accesses cost

An access takes three cycles, and an instruction one more at least: so a step with `n` accesses costs from
`3 * n + 1` to `3 * n + 7` cycles (`Instruction.paid`, over all instructions, by the table of what they
access). This adds up: the cycles of a burst bound its accesses from above, and its steps from both sides
(`Circuit.cost_bounds_traffic`).
-/

namespace Cabinet

/-! ### One instruction -/

/-- So many accesses of one instruction may cost so many cycles. -/
def Paid (accesses cycles : Nat) : Prop :=
  3 * accesses + 1 ≤ cycles ∧ cycles ≤ 3 * accesses + 7 ∧ 4 ≤ cycles ∧ cycles ≤ 18 ∧ accesses ≤ 5

instance (accesses cycles : Nat) : Decidable (Paid accesses cycles) :=
  inferInstanceAs (Decidable (_ ∧ _ ∧ _ ∧ _ ∧ _))

/-- **The cost of an instruction fits its accesses**: one case for each number of accesses and cost that
an instruction has. -/
theorem Instruction.paid {i : Instruction} (exists_byte : i.bytes ≠ []) (c : Cpu) (arg : UInt16) :
    Paid (i.length + (i.touches c arg).length) (i.cycles c.flags).toNat := by
  cases i with
  | nop | xchg | rlc | rrc | ral | rar | daa | cma | stc | cmc | di | ei =>
    exact (by decide : Paid 1 4)
  | inx | dcx | pchl | sphl => exact (by decide : Paid 1 5)
  | hlt => exact (by decide : Paid 1 7)
  | dad => exact (by decide : Paid 1 10)
  | mov dst src =>
    cases dst with
    | mem =>
      cases src with
      | mem => exact absurd rfl exists_byte
      | reg r => exact (by decide : Paid 2 7)
    | reg r =>
      cases src with
      | mem => exact (by decide : Paid 2 7)
      | reg r' => exact (by decide : Paid 1 5)
  | alu op src =>
    cases src with
    | mem => exact (by decide : Paid 2 7)
    | reg r => exact (by decide : Paid 1 4)
  | inr dst | dcr dst =>
    cases dst with
    | mem => exact (by decide : Paid 3 10)
    | reg r => exact (by decide : Paid 1 5)
  | mvi dst =>
    cases dst with
    | mem => exact (by decide : Paid 3 10)
    | reg r => exact (by decide : Paid 2 7)
  | aluImmediate => exact (by decide : Paid 2 7)
  | stax p | ldax p => cases p <;> exact (by decide : Paid 2 7)
  | lxi | input | output | jmp | jcc | ret | pop => exact (by decide : Paid 3 10)
  | push | rst => exact (by decide : Paid 3 11)
  | sta | lda => exact (by decide : Paid 4 13)
  | shld | lhld => exact (by decide : Paid 5 16)
  | call => exact (by decide : Paid 5 17)
  | xthl => exact (by decide : Paid 5 18)
  | ccc cond =>
    simp only [touches, cycles]
    split
    · exact (by decide : Paid 5 17)
    · exact (by decide : Paid 3 11)
  | rcc cond =>
    simp only [touches, cycles]
    split
    · exact (by decide : Paid 3 11)
    · exact (by decide : Paid 1 5)

namespace Circuit

variable {σ : Type} [Bus σ] {w : Circuit σ}

/-! ### One step -/

/-- A step of a circuit with a bus that records pays for the accesses that it adds. -/
theorem paid_step_traced {v : Circuit (Traced σ)} (running : v.cpu.halted = false) :
    ∃ n, v.step.2.bus.trace.size = v.bus.trace.size + n ∧ Paid n v.step.1.toNat := by
  obtain ⟨i, opcode⟩ : ∃ i : Instruction, v.opcode ∈ i.bytes :=
    ⟨_, Instruction.mem_bytes_ofByte v.opcode⟩
  have places := congrArg List.length (places_step_traced running opcode)
  rw [List.length_append, List.length_append, List.length_map, List.length_range] at places
  simp only [Traced.places, List.length_map, Array.length_toList] at places
  refine ⟨_, places, ?_⟩
  rw [step_of_opcode running (Instruction.mem_bytes_iff.1 opcode)]
  exact Instruction.paid (List.ne_nil_of_mem opcode) v.cpu v.argument

/-- **A step pays for its accesses.** -/
theorem paid_step (running : w.cpu.halted = false) : Paid w.accesses.length w.step.1.toNat := by
  obtain ⟨n, size, paid⟩ := paid_step_traced (v := w.traced) running
  have start : w.traced.bus.trace.size = 0 := rfl
  rw [start, Nat.zero_add] at size
  rw [accesses, Array.length_toList, size, (w.alike_traced.step Traced.simulation).answer_eq]
  exact paid

/-! ### Any number of steps -/

/-- Steps on buses that answer alike cost the same. -/
theorem Alike.steps {τ : Type} [Bus τ] {R : σ → τ → Prop} (hR : Bus.Simulation R) {v : Circuit τ}
    (h : Alike R w v) (k : Nat) : w.costs k = v.costs k ∧ Alike R (w.after k) (v.after k) := by
  induction k generalizing w v with
  | zero => exact ⟨rfl, h⟩
  | succ k ih =>
    obtain ⟨costs, alike⟩ := ih (h.step hR).alike
    rw [Circuit.costs, Circuit.costs, (h.step hR).answer_eq, costs]
    exact ⟨rfl, alike⟩

/-- So many steps, none of them of a halted processor, pay for the accesses that they add. -/
theorem paid_steps {v : Circuit (Traced σ)} {k : Nat}
    (running : ∀ j < k, (v.after j).cpu.halted = false) :
    3 * (v.after k).bus.trace.size + k ≤ 3 * v.bus.trace.size + (v.costs k).sum ∧
      (v.costs k).sum ≤ 18 * k := by
  induction k with
  | zero => exact ⟨Nat.le_refl _, Nat.le_refl _⟩
  | succ k ih =>
    obtain ⟨most, least⟩ := ih fun j lt => running j (Nat.lt_succ_of_lt lt)
    obtain ⟨n, size, paid⟩ := paid_step_traced (running k (Nat.lt_succ_self k))
    rw [after_succ, costs_succ, List.sum_append, List.sum_singleton, size]
    unfold Paid at paid
    omega

/-- The steps of a burst are those of the burst on a bus that records. -/
theorem over_traced (w : Circuit σ) (budget : UInt32) (used : Nat) :
    Over budget used w.traced = Over budget used w := by
  funext k
  obtain ⟨costs, alike⟩ := w.alike_traced.steps Traced.simulation k
  rw [Over, Over, costs, alike.cpu_eq]

/-- **Costs bound traffic.** Whatever the state of a processor that is not halted, and whatever the bus
does:

* a step makes at most five accesses, and costs from four to eighteen cycles; of these each access takes
  three, and what is left over is from one to seven;
* a burst makes the least number of steps after which its cycles, with those that wait to be charged,
  reach the budget or the processor is halted; as long as the count does not stop at the greatest one, it
  gives for its steps three cycles for each access and one for each step at least, and eighteen for each
  step at most.

The accesses are seen on a bus that records them, which the burst does not notice. -/
theorem cost_bounds_traffic (running : w.cpu.halted = false) :
    (3 * w.accesses.length + 1 ≤ w.step.1.toNat ∧ w.step.1.toNat ≤ 3 * w.accesses.length + 7 ∧
      4 ≤ w.step.1.toNat ∧ w.step.1.toNat ≤ 18 ∧ w.accesses.length ≤ 5) ∧
    ∀ budget : UInt32,
      SameAnswer (fun s (t : Traced σ) => t.bus = s) (w.execute budget) (w.traced.execute budget) ∧
      ∃ k, IsLeast {k | budget.toNat ≤ w.cpu.pending.toNat + (w.uncharged.costs k).sum ∨
          (w.uncharged.after k).cpu.halted = true} k ∧
        (w.execute budget).2 = w.uncharged.after k ∧
        (w.cpu.pending.toNat + (w.uncharged.costs k).sum < 2 ^ 32 →
          w.cpu.pending ≤ (w.execute budget).1 ∧
          3 * (w.traced.execute budget).2.bus.trace.size + k ≤
            (w.execute budget).1.toNat - w.cpu.pending.toNat ∧
          (w.execute budget).1.toNat - w.cpu.pending.toNat ≤ 18 * k) := by
  refine ⟨paid_step running, fun budget => ⟨w.alike_traced.execute Traced.simulation budget, ?_⟩⟩
  obtain ⟨k, least, circuit, cycles⟩ := exists_steps_execute running budget
  refine ⟨k, least, circuit, fun fits => ?_⟩
  obtain ⟨k', least', recorded, -⟩ := exists_steps_execute (w := w.traced) running budget
  -- Recording changes neither the costs nor when the processor halts, so it makes as many steps.
  have sameSteps : Over budget w.cpu.pending.toNat w.traced.uncharged =
      Over budget w.cpu.pending.toNat w.uncharged := w.uncharged.over_traced _ _
  have same : k' = k := by
    rw [show w.traced.cpu.pending = w.cpu.pending from rfl, sameSteps] at least'
    exact least'.unique least
  subst same
  obtain ⟨most, atMost⟩ := paid_steps fun j lt => running_of_lt least' lt
  have costs := (w.uncharged.alike_traced.steps Traced.simulation k').1
  have start : w.traced.uncharged.bus.trace.size = 0 := rfl
  have sum : (w.execute budget).1.toNat =
      w.cpu.pending.toNat + (w.traced.uncharged.costs k').sum := by
    rw [cycles, costs]
    exact Nat.min_eq_right (Nat.le_of_lt_succ (costs ▸ fits))
  rw [UInt32.le_iff_toNat_le, recorded, sum]
  omega

/-- XTHL, with an interrupt that waits to be charged. -/
def exchanging : Circuit Board where
  cpu := { sp := 0x2000, pending := 11 }
  bus := .flat [0xE3]

theorem step_exchanging :
    exchanging.uncharged.step.1 = 18 ∧ exchanging.accesses.length = 5 := by
  have xthl (cpu : Cpu) (pc : cpu.pc = 0) :
      (Circuit.mk cpu (Board.flat [0xE3])).opcode ∈ Instruction.xthl.bytes := by
    rw [opcode_flat, pc]
    decide
  have places := congrArg List.length (places_step (w := exchanging) rfl (xthl _ rfl))
  rw [List.length_map] at places
  refine ⟨?_, places⟩
  rw [step_of_opcode (w := exchanging.uncharged) rfl (Instruction.mem_bytes_iff.1 (xthl _ rfl))]
  rfl

/-- It makes five accesses for eighteen cycles, and a burst of this step makes no more and uses these
cycles and those of the interrupt. -/
theorem exchanging_costs : exchanging.cpu.halted = false ∧
    3 * 5 + 1 ≤ exchanging.step.1.toNat ∧ exchanging.step.1.toNat ≤ 3 * 5 + 7 ∧
    (exchanging.traced.execute 20).2.bus.trace.size ≤ 5 ∧ (exchanging.execute 20).1.toNat ≤ 29 := by
  obtain ⟨⟨least, most, -⟩, bursts⟩ := cost_bounds_traffic (w := exchanging) rfl
  obtain ⟨-, k, ⟨ended, first⟩, -, bounds⟩ := bursts 20
  obtain ⟨cost, accesses⟩ := step_exchanging
  have costs : exchanging.uncharged.costs 1 = [18] := by
    show [exchanging.uncharged.step.1.toNat] = [18]
    rw [cost]
    rfl
  have one : k = 1 := by
    have le : k ≤ 1 := by
      refine first (.inl ?_)
      rw [costs]
      decide
    have ne : k ≠ 0 := by
      rintro rfl
      obtain reached | halted := ended
      · exact absurd reached (by decide)
      · cases halted
    omega
  subst one
  rw [costs] at bounds
  have waiting : exchanging.cpu.pending.toNat = 11 := rfl
  obtain ⟨-, traffic, cycles⟩ := bounds (by decide)
  rw [accesses] at least most
  rw [waiting] at traffic cycles
  refine ⟨rfl, least, most, ?_, ?_⟩ <;> omega

end Circuit

end Cabinet
