import Cabinet.Proofs.Cpu.Halting
import Cabinet.Proofs.Machine.Ledger
/-!
# How long a frame takes

A frame is two bursts of half a frame each, and how long a burst takes depends on HLT only. A burst that
finds the processor halted takes half a frame exactly. One that executes no HLT takes half a frame or up
to seventeen cycles more, and one that executes HLT six cycles more at most, but it may be over at once
(`Machine.HalfFrame`). What waits to be charged at the beginning of a burst does not matter, since a
machine never holds back more than the cycles of one interrupt. So a frame takes 34166 cycles at most, and
34132 at least unless it executes HLT (`Machine.frame_length`).
-/

namespace Cabinet

/-! ### Bursts with and without HLT -/

namespace Circuit

variable {σ : Type} [Bus σ] {w : Circuit σ} {budget : UInt32}

/-- One of the instructions that a burst executes is HLT. -/
def ExecutesHlt (w : Circuit σ) (budget : UInt32) : Prop :=
  w.cpu.halted = false ∧ ∃ k < w.burstLength budget, (w.uncharged.after k).opcode = 0x76

/-- The burst makes the steps that it is long. -/
theorem execute_of_burstLength (running : w.cpu.halted = false) (budget : UInt32) :
    (w.execute budget).2 = w.uncharged.after (w.burstLength budget) ∧
      (w.execute budget).1.toNat = min (2 ^ 32 - 1)
        (w.cpu.pending.toNat + (w.uncharged.costs (w.burstLength budget)).sum) := by
  obtain ⟨k, least, circuit, cycles⟩ := exists_steps_execute running budget
  rw [← least.unique (isLeast_burstLength w budget)]
  exact ⟨circuit, cycles⟩

/-- A burst executes HLT if and only if it ends halted. -/
theorem executesHlt_iff (running : w.cpu.halted = false) (budget : UInt32) :
    w.ExecutesHlt budget ↔ (w.execute budget).2.cpu.halted = true := by
  rw [(execute_of_burstLength running budget).1,
    halted_after_iff (w := w.uncharged) running (isLeast_burstLength w budget)]
  exact and_iff_right running

end Circuit

namespace Machine

open Circuit

/-! ### Half a frame -/

/-- How many cycles a burst of half a frame takes, and that no count of them stops early. -/
structure HalfFrame {σ : Type} [Bus σ] (w : Circuit σ) : Prop where
  /-- If it finds the processor halted, half a frame. -/
  asleep : w.cpu.halted = true → (w.execute halfFrame).1.toNat = 17066
  /-- If it executes no HLT, half a frame and less than an instruction more. -/
  busy : w.cpu.halted = false → ¬w.ExecutesHlt halfFrame →
    17066 ≤ (w.execute halfFrame).1.toNat ∧ (w.execute halfFrame).1.toNat ≤ 17083
  /-- If it executes HLT, it ends with that, less than seven cycles behind half a frame. -/
  hlt : w.ExecutesHlt halfFrame →
    (w.execute halfFrame).1.toNat ≤ 17072 ∧ (w.execute halfFrame).2.cpu.halted = true
  /-- What is charged at first and the costs of its instructions are counted in full. -/
  counted : w.cpu.halted = false → (w.execute halfFrame).1.toNat =
    w.cpu.pending.toNat + (w.uncharged.costs (w.burstLength halfFrame)).sum
  /-- So is an interrupt that is accepted after it. -/
  acknowledged : ∀ vector, ((w.execute halfFrame).2.interrupt vector).2.cpu.pending.toNat =
    (w.execute halfFrame).2.cpu.pending.toNat +
      if ((w.execute halfFrame).2.interrupt vector).1 then 11 else 0

theorem toNat_halfFrame : halfFrame.toNat = 17066 := rfl

section HalfFrame

variable {σ : Type} [Bus σ] {w : Circuit σ}

theorem HalfFrame.le (h : HalfFrame w) : (w.execute halfFrame).1.toNat ≤ 17083 := by
  cases hh : w.cpu.halted with
  | true => rw [h.asleep hh]; decide
  | false =>
    by_cases hlt : w.ExecutesHlt halfFrame
    · exact Nat.le_trans (h.hlt hlt).1 (by decide)
    · exact (h.busy hh hlt).2

theorem HalfFrame.ge (h : HalfFrame w) (none : ¬w.ExecutesHlt halfFrame) :
    17066 ≤ (w.execute halfFrame).1.toNat := by
  cases hh : w.cpu.halted with
  | true => exact Nat.le_of_eq (h.asleep hh).symm
  | false => exact (h.busy hh none).1

/-- **A burst of half a frame is that long**, if no more waits to be charged than one interrupt. -/
theorem halfFrame_of_pending_le (held : w.cpu.pending.toNat ≤ 11) : HalfFrame w := by
  have most := used_le_of_isLeast_over (isLeast_burstLength w halfFrame)
  have half := toNat_halfFrame
  refine ⟨fun halted => ?asleep, fun running none => ?busy, fun hlt => ?hlt, fun running => ?counted,
    fun vector => ?acknowledged⟩
  case asleep =>
    rw [execute_of_halted halted]
    exact half
  case busy =>
    have cycles := (execute_of_burstLength running halfFrame).2
    obtain reached | halted := le_execute_or_halted w halfFrame
    · rw [UInt32.le_iff_toNat_le] at reached
      omega
    · exact absurd ((executesHlt_iff running halfFrame).2 halted) none
  case hlt =>
    obtain ⟨circuit, cycles⟩ := execute_of_burstLength hlt.1 halfFrame
    have halted := (executesHlt_iff hlt.1 halfFrame).1 hlt
    rw [circuit] at halted
    have within := used_le_of_halted (w := w.uncharged) hlt.1 (isLeast_burstLength w halfFrame) halted
    refine ⟨by omega, ?_⟩
    rw [circuit]
    exact halted
  case counted =>
    have cycles := (execute_of_burstLength running halfFrame).2
    omega
  case acknowledged =>
    have none := pending_execute halfFrame w
    rw [pending_interrupt none, interruptCharges, none]
    split <;> rfl

end HalfFrame

/-! ### A frame -/

variable {chips : Chips} {m : Machine}

/-- The circuits with which the two bursts of a frame begin. -/
def bursts (m : Machine) : List (Circuit Board) :=
  [m.circuit, ((m.circuit.execute halfFrame).2.interrupt midScreen).2]

/-- **How long a frame takes.** In any machine that is reached, whatever its program is, each burst takes
half a frame as far as HLT lets it, a frame takes the two together, which are 34166 cycles at most, and
34132 at least unless HLT is executed. The frame is counted as one and its cycles are counted, as far as
counters of sixty-four bits go. -/
theorem frame_length (h : m.Reachable chips) :
    (∀ w ∈ m.bursts, HalfFrame w) ∧
      m.stepFrame.1.toNat = (m.bursts.map fun w => (w.execute halfFrame).1.toNat).sum ∧
      m.stepFrame.1.toNat ≤ 34166 ∧
      ((∀ w ∈ m.bursts, ¬w.ExecutesHlt halfFrame) → 34132 ≤ m.stepFrame.1.toNat) ∧
      m.stepFrame.2.frames = m.frames + 1 ∧
      m.stepFrame.2.cycles = m.cycles + m.stepFrame.1.toUInt64 ∧
      (m.frames.toNat + 1 < 2 ^ 64 → m.stepFrame.2.frames.toNat = m.frames.toNat + 1) ∧
      (m.cycles.toNat + m.stepFrame.1.toNat < 2 ^ 64 →
        m.stepFrame.2.cycles.toNat = m.cycles.toNat + m.stepFrame.1.toNat) := by
  obtain ⟨rom, checksums, sound⟩ := exists_sound chips
  have held := pending_le (sound h).pending
  have held' := (settled_interrupt (pending_execute halfFrame m.circuit) midScreen).pending_le
  have first := halfFrame_of_pending_le held
  have second := halfFrame_of_pending_le held'
  have total := toNat_cycles_stepFrame held
  have both : ∀ w ∈ m.bursts, HalfFrame w :=
    List.forall_mem_cons.2 ⟨first, List.forall_mem_singleton.2 second⟩
  refine ⟨both, total, ?_, fun none => ?_, rfl, rfl, fun fits => ?_, fun fits => ?_⟩
  · have := first.le
    have := second.le
    omega
  · have := first.ge (none _ (List.mem_cons_self ..))
    have := second.ge (none _ (List.mem_cons_of_mem _ (List.mem_singleton_self _)))
    omega
  · show (m.frames + 1).toNat = _
    rw [UInt64.toNat_add]
    exact Nat.mod_eq_of_lt fits
  · show (m.cycles + m.stepFrame.1.toUInt64).toNat = _
    rw [UInt64.toNat_add, UInt32.toNat_toUInt64]
    exact Nat.mod_eq_of_lt fits

/-! ### A frame without HLT -/

/-- A program that stays where it is: JMP 0001 at 0001. -/
def looping : List UInt8 := [0xC3, 0x01, 0x00]

theorem step_looping (h : m.Reachable (codeChips looping))
    (cpu : m.circuit.cpu = .atReset resetVector) :
    m.circuit.opcode = 0xC3 ∧ m.circuit.step.2 = m.circuit := by
  obtain ⟨rom, checksums, sound⟩ := exists_sound (codeChips looping)
  have program := (sound h).memory
  have pc : m.circuit.cpu.pc = 0x0001 := by rw [cpu]; rfl
  have running : m.circuit.cpu.halted = false := by rw [cpu]; rfl
  have first : m.read 0x0001 = 0xC3 := h.read_code (k := 0) (by decide) (by decide)
  have second : m.read 0x0002 = 0x01 := h.read_code (k := 1) (by decide) (by decide)
  have third : m.read 0x0003 = 0x00 := h.read_code (k := 2) (by decide) (by decide)
  have jmp : Bus.read m.circuit.cpu.pc m.circuit.bus = (0xC3, m.circuit.bus) :=
    busRead_of_memory program (by rw [pc]; exact first) (by rw [pc]; decide) _ program
  have low : Bus.read (m.circuit.cpu.pc + 1) m.circuit.bus = (0x01, m.circuit.bus) :=
    busRead_of_memory program (by rw [pc]; exact second) (by rw [pc]; decide) _ program
  have high : Bus.read (m.circuit.cpu.pc + 1 + 1) m.circuit.bus = (0x00, m.circuit.bus) :=
    busRead_of_memory program (by rw [pc]; exact third) (by rw [pc]; decide) _ program
  have decoded : Instruction.ofByte 0xC3 = .jmp := Instruction.ofByte_eq_decode _
  have target : word 0x00 0x01 = m.circuit.cpu.pc := by rw [pc]; decide
  refine ⟨congrArg Prod.fst jmp, ?_⟩
  rw [step_of_running running, stepRunning_of_read_word jmp decoded rfl low high, target]
  have start : m.circuit = ⟨.atReset resetVector, m.circuit.bus⟩ := by rw [← cpu]
  rw [start]
  rfl

theorem not_executesHlt_looping (h : m.Reachable (codeChips looping))
    (cpu : m.circuit.cpu = .atReset resetVector) : ∀ w ∈ m.bursts, ¬w.ExecutesHlt halfFrame := by
  obtain ⟨opcode, step⟩ := step_looping h cpu
  have running : m.circuit.cpu.halted = false := by rw [cpu]; rfl
  have closed : m.circuit.cpu.inte = false := by rw [cpu]; rfl
  have charged : m.circuit.uncharged = m.circuit := by
    rw [uncharged, mapCpu, cpu]
    show Circuit.mk (Cpu.atReset resetVector) _ = m.circuit
    rw [← cpu]
  have stays : (m.circuit.execute halfFrame).2 = m.circuit := by
    rw [(execute_of_burstLength running halfFrame).1, charged, after_of_step step]
  have none : ¬m.circuit.ExecutesHlt halfFrame := by
    rintro ⟨-, k, -, hlt⟩
    rw [charged, after_of_step step, opcode] at hlt
    exact absurd hlt (by decide)
  rw [bursts, stays, interrupt_of_disabled closed]
  exact List.forall_mem_cons.2 ⟨none, List.forall_mem_singleton.2 none⟩

/-- A frame of this program takes half a frame and at most seventeen cycles more, twice. -/
theorem looping_frame_length :
    (coded looping).Reachable (codeChips looping) ∧
      34132 ≤ (coded looping).stepFrame.1.toNat ∧ (coded looping).stepFrame.1.toNat ≤ 34166 ∧
      (coded looping).stepFrame.2.frames = (coded looping).frames + 1 ∧
      (coded looping).stepFrame.2.cycles =
        (coded looping).cycles + (coded looping).stepFrame.1.toUInt64 := by
  have built := built_coded looping
  have none := not_executesHlt_looping (.built built) built.cpu_eq
  obtain ⟨-, -, most, least, frames, cycles, -⟩ := frame_length (.built built)
  exact ⟨.built built, least none, most, frames, cycles⟩

end Machine

end Cabinet
