import Cabinet.Proofs.Board.Cells
import Cabinet.Proofs.Cpu.Burst
import Cabinet.Proofs.Machine.Regular
/-!
# Splitting a burst

A burst that does not end halted can be continued: the two bursts together are the one whose budget is
what the first of them has used and the budget of the second (`Circuit.execute_execute`). Two facts about
the loop of a burst make it so. A loop goes on from where a loop with a smaller budget has stopped
(`Circuit.run_run`), and cycles that are used at first and allowed in the budget do not matter
(`Circuit.run_add`). Only the sum of the cycles may stop at the greatest count; with room for one
instruction behind the budget it is exact.
-/

namespace Cabinet

/-! ### Sums of cycles -/

theorem addCycles_assoc (x y z : UInt32) :
    addCycles (addCycles x y) z = addCycles x (addCycles y z) := by
  rw [← UInt32.toNat_inj]
  simp only [toNat_addCycles]
  omega

theorem addCycles_zero (x : UInt32) : addCycles x 0 = x := by
  have bound := x.toNat_lt
  rw [← UInt32.toNat_inj, toNat_addCycles]
  show min 0xFFFFFFFF (x.toNat + 0) = x.toNat
  omega

theorem addCycles_eq_add {x y : UInt32} (fits : x.toNat + y.toNat < 2 ^ 32) :
    addCycles x y = x + y := by
  rw [← UInt32.toNat_inj, toNat_addCycles, UInt32.toNat_add]
  omega

theorem toUInt64_add_of_lt {x y : UInt32} (fits : x.toNat + y.toNat < 2 ^ 32) :
    (x + y).toUInt64 = x.toUInt64 + y.toUInt64 := by
  rw [← UInt64.toNat_inj, UInt64.toNat_add, UInt32.toNat_toUInt64, UInt32.toNat_toUInt64,
    UInt32.toNat_toUInt64, UInt32.toNat_add]
  omega

/-- Whether a budget is reached does not depend on what is used at first and allowed in it. -/
theorem addCycles_lt_add_iff {x y budget : UInt32} (fits : x.toNat + budget.toNat < 2 ^ 32) :
    addCycles x y < x + budget ↔ y < budget := by
  rw [UInt32.lt_iff_toNat_lt, UInt32.lt_iff_toNat_lt, toNat_addCycles, UInt32.toNat_add]
  omega

namespace Circuit

variable {σ : Type} [Bus σ] {w : Circuit σ} {small great budget : UInt32}

/-! ### The loop of a burst -/

/-- **A loop goes on from where one with a smaller budget has stopped.** -/
theorem run_run (le : small ≤ great) (used : UInt32) (w : Circuit σ) :
    run great (run small used w).1 (run small used w).2 = run great used w := by
  induction used, w using Circuit.run.induct (σ := σ) small
  case case1 used w hw r ih =>
    have lt : used < great := UInt32.lt_of_lt_of_le hw.1 le
    rw [run_of_lt hw.1 hw.2, run_of_lt lt hw.2]
    exact ih
  case case2 used w hw => rw [run_of_not hw]

/-- **Cycles that are used at first and allowed in the budget do not matter**, but are counted. -/
theorem run_add {before : UInt32} (fits : before.toNat + budget.toNat < 2 ^ 32) (used : UInt32)
    (w : Circuit σ) : run (before + budget) (addCycles before used) w =
      (addCycles before (run budget used w).1, (run budget used w).2) := by
  induction used, w using Circuit.run.induct (σ := σ) budget
  case case1 used w hw r ih =>
    rw [run_of_lt ((addCycles_lt_add_iff fits).2 hw.1) hw.2, run_of_lt hw.1 hw.2, addCycles_assoc]
    exact ih
  case case2 used w hw =>
    rw [run_of_not hw, run_of_not fun h => hw ⟨(addCycles_lt_add_iff fits).1 h.1, h.2⟩]

/-! ### Bursts -/

theorem running_of_execute (awake : (w.execute budget).2.cpu.halted = false) :
    w.cpu.halted = false := by
  cases hh : w.cpu.halted with
  | false => rfl
  | true =>
    rw [execute_of_halted hh] at awake
    exact absurd (hh.symm.trans awake) Bool.noConfusion

/-- A burst after a burst begins with no cycles to be charged. -/
theorem execute_execute_eq (awake : (w.execute small).2.cpu.halted = false) (budget : UInt32) :
    (w.execute small).2.execute budget = run budget 0 (w.execute small).2 := by
  have none := pending_execute small w
  rw [execute_of_running awake, none]
  congr 1
  show Circuit.mk { (w.execute small).2.cpu with pending := 0 } _ = _
  rw [← none]

/-- **A burst after a burst that does not end halted is the rest of one burst**, whose budget is what the
first one has used and the budget of the second. -/
theorem execute_execute (awake : (w.execute small).2.cpu.halted = false)
    (fits : (w.execute small).1.toNat + budget.toNat < 2 ^ 32) :
    w.execute ((w.execute small).1 + budget) =
      (addCycles (w.execute small).1 ((w.execute small).2.execute budget).1,
        ((w.execute small).2.execute budget).2) := by
  have running := running_of_execute awake
  have first : w.execute small = run small w.cpu.pending w.uncharged := execute_of_running running small
  -- The first burst has reached its budget, so the long one has room for it.
  have reached : small ≤ (w.execute small).1 + budget := by
    obtain reached | halted := le_execute_or_halted w small
    · rw [UInt32.le_iff_toNat_le] at reached ⊢
      rw [UInt32.toNat_add]
      omega
    · exact absurd (awake.symm.trans halted) Bool.noConfusion
  calc w.execute ((w.execute small).1 + budget)
      = run ((w.execute small).1 + budget) w.cpu.pending w.uncharged := execute_of_running running _
    _ = run ((w.execute small).1 + budget) (w.execute small).1 (w.execute small).2 := by
        rw [← run_run reached, ← first]
    _ = _ := by
        rw [execute_execute_eq awake, ← run_add fits, addCycles_zero]

/-- With room for one instruction behind the budget the cycles of the two bursts have a sum. -/
theorem execute_add_execute_lt (room : (w.execute small).1.toNat + budget.toNat ≤ 2 ^ 32 - 18) :
    (w.execute small).1.toNat + ((w.execute small).2.execute budget).1.toNat < 2 ^ 32 := by
  have second := execute_le (w.execute small).2 budget
  have none : (w.execute small).2.cpu.pending.toNat = 0 :=
    congrArg UInt32.toNat (pending_execute small w)
  omega

/-- The accesses of the two bursts, one after the other, are those of the one. -/
theorem trace_execute_execute (awake : (w.execute small).2.cpu.halted = false)
    (fits : (w.execute small).1.toNat + budget.toNat < 2 ^ 32) :
    (w.traced.execute ((w.execute small).1 + budget)).2.bus.trace =
      (w.traced.execute small).2.bus.trace ++
        ((w.execute small).2.traced.execute budget).2.bus.trace := by
  have same := w.alike_traced.execute Traced.simulation small
  have answer := same.answer_eq
  have cpu := same.alike.cpu_eq
  have bus := same.alike.bus
  rw [answer] at fits ⊢
  rw [cpu] at awake
  rw [execute_execute awake fits, trace_execute, ← cpu, bus]

end Circuit

/-! ### Machines -/

namespace Machine

variable {m : Machine} {n₁ n₂ : UInt32}

theorem circuit_stepCycles (m : Machine) (n : UInt32) :
    (m.stepCycles n).2.circuit = (m.circuit.execute n).2 := rfl

theorem stepCycles_eq (m : Machine) (n : UInt32) :
    m.stepCycles n = ((m.circuit.execute n).1,
      { m with
        circuit := (m.circuit.execute n).2
        cycles := m.cycles + (m.circuit.execute n).1.toUInt64 }) := rfl

theorem circuit_stepCycles_stepCycles (awake : (m.stepCycles n₁).2.isHalted = false)
    (fits : (m.stepCycles n₁).1.toNat + n₂.toNat < 2 ^ 32) :
    (m.stepCycles ((m.stepCycles n₁).1 + n₂)).2.circuit =
      ((m.stepCycles n₁).2.stepCycles n₂).2.circuit := by
  rw [stepCycles_eq m n₁] at fits ⊢
  rw [circuit_stepCycles, circuit_stepCycles, Circuit.execute_execute awake fits]

/-- The two bursts of a machine count the cycles of the one. -/
theorem stepCycles_stepCycles (awake : (m.stepCycles n₁).2.isHalted = false)
    (room : (m.stepCycles n₁).1.toNat + n₂.toNat ≤ 2 ^ 32 - 18) :
    m.stepCycles ((m.stepCycles n₁).1 + n₂) =
      ((m.stepCycles n₁).1 + ((m.stepCycles n₁).2.stepCycles n₂).1,
        ((m.stepCycles n₁).2.stepCycles n₂).2) := by
  rw [stepCycles_eq m n₁] at room ⊢
  have sum := Circuit.execute_add_execute_lt room
  have joined := Circuit.execute_execute awake (Nat.lt_of_le_of_lt room (by decide))
  rw [addCycles_eq_add sum] at joined
  rw [stepCycles_eq m, stepCycles_eq _ n₂, joined, toUInt64_add_of_lt sum, UInt64.add_assoc]

end Machine

/-- **A burst can be split wherever the processor is not halted.** Whatever the bus does, a burst of a
budget after one that has not ended halted leaves the circuit as one burst does whose budget is what the
first one has used and that budget, and makes the rest of its accesses. With room for one instruction
behind the budget the one burst gives the sum of what the two give. So a machine that runs two bursts is
the one that runs the one, and with this room it has counted the same cycles. -/
theorem bursts_split :
    (∀ {σ : Type} [Bus σ] {w w₁ w₂ : Circuit σ} {b₁ b₂ c₁ c₂ : UInt32},
      w.execute b₁ = (c₁, w₁) → w₁.cpu.halted = false → w₁.execute b₂ = (c₂, w₂) →
      c₁.toNat + b₂.toNat < 2 ^ 32 →
        (w.execute (c₁ + b₂)).2 = w₂ ∧
        (w.traced.execute (c₁ + b₂)).2.bus.trace =
          (w.traced.execute b₁).2.bus.trace ++ (w₁.traced.execute b₂).2.bus.trace ∧
        (c₁.toNat + b₂.toNat ≤ 2 ^ 32 - 18 →
          c₁.toNat + c₂.toNat < 2 ^ 32 ∧ w.execute (c₁ + b₂) = (c₁ + c₂, w₂))) ∧
    ∀ {m m₁ m₂ : Machine} {n₁ n₂ c₁ c₂ : UInt32},
      m.stepCycles n₁ = (c₁, m₁) → m₁.isHalted = false → m₁.stepCycles n₂ = (c₂, m₂) →
      c₁.toNat + n₂.toNat < 2 ^ 32 →
        (m.stepCycles (c₁ + n₂)).2.circuit = m₂.circuit ∧
        (c₁.toNat + n₂.toNat ≤ 2 ^ 32 - 18 → m.stepCycles (c₁ + n₂) = (c₁ + c₂, m₂)) := by
  constructor
  · intro σ _ w w₁ w₂ b₁ b₂ c₁ c₂ first awake second fits
    obtain ⟨rfl, rfl⟩ : (w.execute b₁).1 = c₁ ∧ (w.execute b₁).2 = w₁ := by simp [first]
    obtain ⟨rfl, rfl⟩ : ((w.execute b₁).2.execute b₂).1 = c₂ ∧ ((w.execute b₁).2.execute b₂).2 = w₂ := by
      simp [second]
    have joined := Circuit.execute_execute awake fits
    refine ⟨by rw [joined], Circuit.trace_execute_execute awake fits, fun room => ?_⟩
    have sum := Circuit.execute_add_execute_lt room
    exact ⟨sum, by rw [joined, addCycles_eq_add sum]⟩
  · intro m m₁ m₂ n₁ n₂ c₁ c₂ first awake second fits
    obtain ⟨rfl, rfl⟩ : (m.stepCycles n₁).1 = c₁ ∧ (m.stepCycles n₁).2 = m₁ := by simp [first]
    obtain ⟨rfl, rfl⟩ :
        ((m.stepCycles n₁).2.stepCycles n₂).1 = c₂ ∧ ((m.stepCycles n₁).2.stepCycles n₂).2 = m₂ := by
      simp [second]
    exact ⟨Machine.circuit_stepCycles_stepCycles awake fits, Machine.stepCycles_stepCycles awake⟩

/-! ### A burst that is split -/

/-- A processor with an interrupt to be charged, before a halt. -/
def held : Circuit Board := { cpu := { pending := 11 }, bus := .flat [0x76] }

/-- The processor when it has halted. -/
def heldHalted : Circuit Board := { cpu := { pc := 1, halted := true }, bus := .flat [0x76] }

theorem execute_held : held.execute 5 = (11, held.uncharged) := by
  rw [Circuit.execute_of_running rfl]
  exact Circuit.run_of_not fun h => absurd h.1 (by decide)

theorem execute_uncharged_held : held.uncharged.execute 100 = (7, heldHalted) := by
  rw [Circuit.execute_of_running rfl]
  exact Circuit.run_eq_of_hlt rfl (by decide) (Board.read_flat [0x76] 0)

/-- A machine with this processor. -/
def holding : Machine where
  circuit := held
  pixels := .blank
  frames := 0
  cycles := 0
  pacing := Settings.standard.pacing
  checksums := []
  map := none

/-- The interrupt alone exceeds the first budget, and the processor halts within the second. -/
theorem held_split :
    held.execute 5 = (11, held.uncharged) ∧ held.uncharged.cpu.halted = false ∧
      held.uncharged.execute 100 = (7, heldHalted) ∧ held.execute 111 = (18, heldHalted) ∧
      holding.stepCycles 111 = (18, { holding with circuit := heldHalted, cycles := 18 }) := by
  obtain ⟨circuits, machines⟩ := bursts_split
  obtain ⟨-, -, sum⟩ := circuits execute_held rfl execute_uncharged_held (by decide)
  have first : holding.stepCycles 5 =
      (11, { holding with circuit := held.uncharged, cycles := 11 }) := by
    rw [Machine.stepCycles_eq, show holding.circuit = held from rfl, execute_held]
    rfl
  have second : { holding with circuit := held.uncharged, cycles := 11 }.stepCycles 100 =
      (7, { holding with circuit := heldHalted, cycles := 18 }) := by
    rw [Machine.stepCycles_eq, execute_uncharged_held]
    rfl
  obtain ⟨-, joined⟩ := machines first rfl second (by decide)
  exact ⟨execute_held, rfl, execute_uncharged_held, (sum (by decide)).2, joined (by decide)⟩

end Cabinet
