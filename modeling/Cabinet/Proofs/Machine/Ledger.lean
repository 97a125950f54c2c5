import Cabinet.Proofs.Cpu.Burst
import Cabinet.Proofs.Machine.Regular
import Cabinet.Proofs.Machine.Stepping
import Mathlib.Order.Nat
/-!
# Where the cycles go

Time passes for one of three reasons: an instruction is executed, an interrupt is accepted, or a burst
finds the processor halted (`Charge`). The charges of a run are listed here by following the processor
step by step, and they balance what the machine has counted together with what it still holds back
(`Machine.cycles_conserved`).

The cycles of an interrupt are held back until the next burst, and a burst that finds the processor
halted forgets what is held back. That nothing is lost all the same is due to the invariant of an
earlier module (`Circuit.Settled`): an interrupt that is held back has woken the processor. Each burst
then gives exactly what was held back and its own charges (`Circuit.execute_eq_pending_add`), and each
operation keeps the balance (`Machine.balance_perform`), so that any run does.
-/

namespace Cabinet

/-- A reason for which time passes. -/
inductive Charge where
  /-- An instruction is executed, at this cost. -/
  | instruction (cost : Nat)
  /-- An interrupt is accepted. -/
  | acknowledgement
  /-- A burst with this budget finds the processor halted. -/
  | idle (budget : UInt32)
deriving DecidableEq, Inhabited

/-- The cycles that pass. -/
def Charge.cycles : Charge → Nat
  | .instruction cost => cost
  | .acknowledgement => 11
  | .idle budget => budget.toNat

/-- The cycles that pass for several reasons. -/
def Charge.total (cs : List Charge) : Nat := (cs.map Charge.cycles).sum

theorem Charge.total_append (cs ds : List Charge) : total (cs ++ ds) = total cs + total ds := by
  rw [total, total, total, List.map_append, List.sum_append]

theorem Charge.total_instructions (costs : List Nat) : total (costs.map .instruction) = costs.sum := by
  rw [total, List.map_map, show Charge.cycles ∘ Charge.instruction = id from rfl, List.map_id]

/-! ### Bursts and interrupts -/

namespace Circuit

variable {σ : Type} [Bus σ] {w : Circuit σ} {budget : UInt32}

instance (budget : UInt32) (used : Nat) (w : Circuit σ) : DecidablePred (Over budget used w) :=
  fun _ => inferInstanceAs (Decidable (_ ∨ _))

theorem exists_over (w : Circuit σ) (budget : UInt32) :
    ∃ k, Over budget w.cpu.pending.toNat w.uncharged k := by
  obtain ⟨k, least, -⟩ := exists_steps_run budget w.cpu.pending w.uncharged
  exact ⟨k, least.1⟩

/-- How many instructions a burst executes. -/
def burstLength (w : Circuit σ) (budget : UInt32) : Nat := Nat.find (exists_over w budget)

theorem isLeast_burstLength (w : Circuit σ) (budget : UInt32) :
    IsLeast {k | Over budget w.cpu.pending.toNat w.uncharged k} (w.burstLength budget) :=
  Nat.isLeast_find (exists_over w budget)

/-- The charges of a burst. -/
def burstCharges (w : Circuit σ) (budget : UInt32) : List Charge :=
  if w.cpu.halted then [.idle budget]
  else (w.uncharged.costs (w.burstLength budget)).map .instruction

/-- The charge of an interrupt, if it is accepted. -/
def interruptCharges (w : Circuit σ) (vector : UInt16) : List Charge :=
  if (w.interrupt vector).1 then [.acknowledgement] else []

omit [Bus σ] in
theorem Settled.pending_le (h : w.Settled) : w.cpu.pending.toNat ≤ 11 := Circuit.pending_le h.pending

/-- **A burst gives what was held back and its own charges**, exactly. It must have room to exceed its
budget by seventeen cycles. -/
theorem execute_eq_pending_add (settled : w.Settled) (room : budget.toNat ≤ 2 ^ 32 - 18) :
    (w.execute budget).1.toNat = w.cpu.pending.toNat + Charge.total (w.burstCharges budget) := by
  cases hh : w.cpu.halted with
  | true =>
    -- A processor that is halted holds nothing back, so that there is nothing to forget.
    have none : w.cpu.pending = 0 := by
      obtain none | ⟨-, awake, -⟩ := settled
      · exact none
      · rw [hh] at awake
        cases awake
    rw [execute_of_halted hh, none, burstCharges, if_pos hh]
    exact (Nat.zero_add budget.toNat).symm
  | false =>
    obtain ⟨k, least, -, cycles⟩ := exists_steps_execute hh budget
    have length := least.unique (isLeast_burstLength w budget)
    have bound := used_le_of_isLeast_over least
    have held := settled.pending_le
    have charges : w.burstCharges budget = (w.uncharged.costs k).map .instruction := by
      rw [burstCharges, if_neg (Bool.not_eq_true _ ▸ hh), length]
    rw [cycles, charges, Charge.total_instructions]
    omega

/-- What an interrupt holds back, if nothing was held back before. -/
theorem pending_interrupt (none : w.cpu.pending = 0) (vector : UInt16) :
    (w.interrupt vector).2.cpu.pending.toNat = Charge.total (w.interruptCharges vector) := by
  unfold interruptCharges
  cases hi : w.cpu.inte with
  | true =>
    rw [interrupt_of_enabled hi, if_pos rfl]
    show (addCycles w.cpu.pending interruptCycles).toNat = 11
    rw [none]
    rfl
  | false =>
    rw [interrupt_of_disabled hi, if_neg Bool.false_ne_true]
    show w.cpu.pending.toNat = 0
    rw [none]
    rfl

end Circuit

namespace Machine

open Circuit

/-! ### One operation -/

/-- The charges of a frame: those of two bursts with an interrupt after each. -/
def frameCharges {σ : Type} [Bus σ] (w : Circuit σ) : List Charge :=
  let first := (w.execute halfFrame).2
  let mid := (first.interrupt midScreen).2
  let second := (mid.execute halfFrame).2
  w.burstCharges halfFrame ++ first.interruptCharges midScreen ++
    (mid.burstCharges halfFrame ++ second.interruptCharges endScreen)

/-- The charges of an operation. -/
def chargesOf (m : Machine) : Operation → List Charge
  | .stepFrame => frameCharges m.circuit
  | .stepCycles budget => m.circuit.burstCharges budget
  | _ => []

/-- The charges of one operation after the other. -/
def charges (m : Machine) : List Operation → List Charge
  | [] => []
  | op :: ops => m.chargesOf op ++ (m.perform op).2.charges ops

end Machine

/-- The cycles that an operation gives. -/
def Answer.cyclesGiven : Answer → Nat
  | .cycles n => n.toNat
  | _ => 0

/-- The cycles that several operations give. -/
def Answer.totalGiven (as : List Answer) : Nat := (as.map Answer.cyclesGiven).sum

/-- The counters go on, and a burst has room to exceed its budget. -/
def Operation.Billed (op : Operation) : Prop :=
  op.goesOn = true ∧ ∀ budget, op = .stepCycles budget → budget.toNat ≤ 2 ^ 32 - 18

theorem Operation.putsBack_of_goesOn {op : Operation} (h : op.goesOn = true) : op.putsBack = false := by
  cases op with
  | reset | load | restore => cases h
  | _ => rfl

namespace Machine

open Circuit

variable {chips : Chips} {m : Machine} {op : Operation} {ops : List Operation}

/-- The sum of the two bursts of a frame does not reach the greatest count. -/
theorem toNat_cycles_stepFrame (held : m.circuit.cpu.pending.toNat ≤ 11) :
    m.stepFrame.1.toNat = (m.circuit.execute halfFrame).1.toNat +
      (((m.circuit.execute halfFrame).2.interrupt midScreen).2.execute halfFrame).1.toNat := by
  have half : halfFrame.toNat = 17066 := rfl
  have first := execute_le m.circuit halfFrame
  have second := execute_le ((m.circuit.execute halfFrame).2.interrupt midScreen).2 halfFrame
  have held' := (settled_interrupt (pending_execute halfFrame m.circuit) midScreen).pending_le
  rw [cycles_stepFrame, toNat_addCycles]
  omega

/-- A frame keeps the balance: what was held back before and what passes in the frame is given, or held
back afterwards. -/
theorem balance_stepFrame (settled : m.circuit.Settled) :
    m.stepFrame.1.toNat + m.stepFrame.2.circuit.cpu.pending.toNat =
      m.circuit.cpu.pending.toNat + Charge.total (frameCharges m.circuit) := by
  have room : halfFrame.toNat ≤ 2 ^ 32 - 18 := by decide
  have none := pending_execute halfFrame m.circuit
  have settled' := settled_interrupt none midScreen
  have first := execute_eq_pending_add settled room
  have mid := pending_interrupt none midScreen
  have second := execute_eq_pending_add settled' room
  have last := pending_interrupt
    (pending_execute halfFrame ((m.circuit.execute halfFrame).2.interrupt midScreen).2) endScreen
  rw [toNat_cycles_stepFrame settled.pending_le, circuit_stepFrame]
  simp only [frameCharges, Charge.total_append]
  show _ + (frame m.circuit).cpu.pending.toNat = _
  unfold frame
  omega

theorem balance_stepCycles (settled : m.circuit.Settled) {budget : UInt32}
    (room : budget.toNat ≤ 2 ^ 32 - 18) :
    (m.stepCycles budget).1.toNat + (m.stepCycles budget).2.circuit.cpu.pending.toNat =
      m.circuit.cpu.pending.toNat + Charge.total (m.circuit.burstCharges budget) := by
  have burst := execute_eq_pending_add settled room
  have none : (m.stepCycles budget).2.circuit.cpu.pending = 0 := pending_execute budget m.circuit
  have zero : (0 : UInt32).toNat = 0 := rfl
  rw [none, zero, ← burst]
  rfl

theorem pending_setInput (m : Machine) (id : UInt8) (pressed : Bool) :
    (m.setInput id pressed).circuit.cpu.pending = m.circuit.cpu.pending := by
  unfold setInput
  split <;> rfl

/-- **An operation keeps the balance.** -/
theorem balance_perform (settled : m.circuit.Settled) (hop : op.Billed) :
    (m.perform op).1.cyclesGiven + (m.perform op).2.circuit.cpu.pending.toNat =
      m.circuit.cpu.pending.toNat + Charge.total (m.chargesOf op) := by
  cases op with
  | stepFrame => exact balance_stepFrame settled
  | stepCycles budget => exact balance_stepCycles settled (hop.2 budget rfl)
  | setInput id pressed =>
    show 0 + (m.setInput id pressed).circuit.cpu.pending.toNat = _
    rw [pending_setInput, Nat.zero_add]
    rfl
  | updatePixels =>
    show 0 + m.updatePixels.circuit.cpu.pending.toNat = _
    rw [circuit_updatePixels, Nat.zero_add]
    rfl
  | setInputBits | setDips | setSpeed | setUncapped | write | setMap =>
    exact Nat.zero_add m.circuit.cpu.pending.toNat
  | reset | load | restore => cases hop.1

/-- What an operation gives is counted. -/
theorem counted_perform (hop : op.goesOn = true) :
    (m.perform op).2.cycles = m.cycles + UInt64.ofNat (m.perform op).1.cyclesGiven := by
  have widened : ∀ n : UInt32, n.toUInt64 = UInt64.ofNat n.toNat := by
    intro n
    rw [← UInt64.toNat_inj, UInt32.toNat_toUInt64]
    exact (UInt64.toNat_ofNat_of_lt' (Nat.lt_trans n.toNat_lt (by decide))).symm
  cases op with
  | stepFrame => exact congrArg (m.cycles + ·) (widened m.stepFrame.1)
  | stepCycles budget => exact congrArg (m.cycles + ·) (widened (m.stepCycles budget).1)
  | setInput id pressed =>
    refine Eq.trans ?_ (UInt64.add_zero m.cycles).symm
    show (m.setInput id pressed).cycles = m.cycles
    unfold setInput
    split <;> rfl
  | updatePixels =>
    refine Eq.trans ?_ (UInt64.add_zero m.cycles).symm
    show m.updatePixels.cycles = m.cycles
    unfold updatePixels
    rfl
  | setInputBits | setDips | setSpeed | setUncapped | write | setMap =>
    exact (UInt64.add_zero m.cycles).symm
  | reset | load | restore => cases hop

/-! ### Any number of operations -/

/-- **A run keeps the balance.** -/
theorem balance_performAll (settled : m.circuit.Settled) (hops : ∀ op ∈ ops, op.Billed) :
    Answer.totalGiven (m.performAll ops).1 + (m.performAll ops).2.circuit.cpu.pending.toNat =
      m.circuit.cpu.pending.toNat + Charge.total (m.charges ops) := by
  induction ops generalizing m with
  | nil => exact Nat.add_comm 0 m.circuit.cpu.pending.toNat
  | cons op ops ih =>
    have hop := hops op (List.mem_cons_self ..)
    have first := balance_perform settled hop
    have rest := ih (settled_perform settled (Operation.putsBack_of_goesOn hop.1))
      fun op hop => hops op (List.mem_cons_of_mem _ hop)
    rw [charges, Charge.total_append]
    show (m.perform op).1.cyclesGiven + Answer.totalGiven ((m.perform op).2.performAll ops).1 +
      ((m.perform op).2.performAll ops).2.circuit.cpu.pending.toNat = _
    omega

theorem counted_performAll (hops : ∀ op ∈ ops, op.Billed) :
    (m.performAll ops).2.cycles =
      m.cycles + UInt64.ofNat (Answer.totalGiven (m.performAll ops).1) := by
  induction ops generalizing m with
  | nil => exact (UInt64.add_zero m.cycles).symm
  | cons op ops ih =>
    have first := counted_perform (m := m) (hops op (List.mem_cons_self ..)).1
    have rest := ih (m := (m.perform op).2) fun op hop => hops op (List.mem_cons_of_mem _ hop)
    rw [first, UInt64.add_assoc, ← UInt64.ofNat_add] at rest
    exact rest

/-- **No cycle is lost or counted twice.** In a new machine that is run in any way, with what an owner
sets in between, what the operations have given and what is held back are together the charges of the
run: the costs of all instructions executed, eleven for each interrupt accepted, and the budget of each
burst that found the processor halted. The next burst gives what is held back, once, and holds nothing
back. The counter of cycles is what was given, and that of frames the number of frames, as far as
counters of sixty-four bits go. -/
theorem cycles_conserved (h : m.Built chips) (hops : ∀ op ∈ ops, op.Billed) :
    Answer.totalGiven (m.performAll ops).1 + (m.performAll ops).2.circuit.cpu.pending.toNat =
        Charge.total (m.charges ops) ∧
      (m.performAll ops).2.cycles = UInt64.ofNat (Answer.totalGiven (m.performAll ops).1) ∧
      (m.performAll ops).2.frames = UInt64.ofNat (ops.countP Operation.isFrame) ∧
      (Answer.totalGiven (m.performAll ops).1 < 2 ^ 64 →
        (m.performAll ops).2.cycles.toNat + (m.performAll ops).2.circuit.cpu.pending.toNat =
          Charge.total (m.charges ops)) ∧
      ∀ budget : UInt32, budget.toNat ≤ 2 ^ 32 - 18 →
        ((m.performAll ops).2.stepCycles budget).1.toNat =
            (m.performAll ops).2.circuit.cpu.pending.toNat +
              Charge.total ((m.performAll ops).2.circuit.burstCharges budget) ∧
          ((m.performAll ops).2.stepCycles budget).2.circuit.cpu.pending = 0 := by
  have balance := balance_performAll h.settled hops
  have counted := counted_performAll (m := m) hops
  have frames := frames_performAll_of_goesOn (m := m) fun op hop => (hops op hop).1
  have settled := settled_performAll h.settled fun op hop => Operation.putsBack_of_goesOn (hops op hop).1
  obtain ⟨program, settings, hp, rfl⟩ := h.exists_fresh
  have given := balance.trans (Nat.zero_add _)
  have cycles := counted.trans (UInt64.zero_add _)
  refine ⟨given, cycles, frames.trans (UInt64.zero_add _), fun fits => ?_, fun budget room => ?_⟩
  · rw [cycles, UInt64.toNat_ofNat_of_lt' fits]
    exact given
  · exact ⟨execute_eq_pending_add settled room, pending_execute budget _⟩

end Machine

/-! ### A run with interrupts -/

namespace Machine

variable {m : Machine}

/-- A program that opens up to interrupts and halts, at first and in the middle of the screen: EI, HLT
at 0001 and at 0008. -/
def waking : List UInt8 := [0xFB, 0x76, 0x00, 0x00, 0x00, 0x00, 0x00, 0xFB, 0x76]

/-- The first frame of this program: EI and HLT, an interrupt, EI and HLT again, and another interrupt,
which is held back. -/
theorem stepFrame_waking (h : m.Reachable (codeChips waking))
    (cpu : m.circuit.cpu = .atReset resetVector) :
    m.stepFrame.1 = 33 ∧ m.stepFrame.2.circuit.cpu.pending = 11 := by
  obtain ⟨rom, checksums, sound⟩ := exists_sound (codeChips waking)
  have program := (sound h).memory
  have read1 : m.read 0x0001 = 0xFB := h.read_code (k := 0) (by decide) (by decide)
  have read2 : m.read 0x0002 = 0x76 := h.read_code (k := 1) (by decide) (by decide)
  have read8 : m.read 0x0008 = 0xFB := h.read_code (k := 7) (by decide) (by decide)
  have read9 : m.read 0x0009 = 0x76 := h.read_code (k := 8) (by decide) (by decide)
  have ei := busRead_of_memory program read1 (by decide)
  have hlt := busRead_of_memory program read2 (by decide)
  have ei' := busRead_of_memory program read8 (by decide)
  have hlt' := busRead_of_memory program read9 (by decide)
  have first : m.circuit.execute halfFrame =
      (11, ⟨{ Cpu.atReset 0x0003 with inte := true, halted := true }, m.circuit.bus⟩) := by
    rw [show m.circuit = ⟨.atReset resetVector, m.circuit.bus⟩ by rw [← cpu]]
    exact Circuit.execute_ei_hlt 0 rfl rfl (by decide) (by decide) (ei _ program) (hlt _ program)
  obtain ⟨board, program', mid⟩ := exists_interrupt_midScreen program 0x0003
  have second : ((m.circuit.execute halfFrame).2.interrupt midScreen).2.execute halfFrame =
      (22, ⟨{ Cpu.atReset 0x000A with sp := 0xFFFE, inte := true, halted := true }, board⟩) := by
    rw [first, mid]
    exact Circuit.execute_ei_hlt 11 rfl rfl (by decide) (by decide) (ei' _ program')
      (hlt' _ program')
  refine ⟨?_, ?_⟩
  · rw [cycles_stepFrame, second, first]
    rfl
  · rw [circuit_stepFrame, frame, second]
    rfl

theorem performAll_waking (h : m.Built (codeChips waking)) :
    Answer.totalGiven (m.performAll [.setInput 0 true, .stepFrame]).1 = 33 ∧
      (m.performAll [.setInput 0 true, .stepFrame]).2.circuit.cpu.pending = 11 := by
  have cpu : (m.setInput 0 true).circuit.cpu = .atReset resetVector := h.cpu_eq
  obtain ⟨given, held⟩ := stepFrame_waking (Reachable.perform (.built h) (.setInput 0 true)) cpu
  refine ⟨?_, held⟩
  show 0 + ((m.setInput 0 true).stepFrame.1.toNat + 0) = 33
  rw [show (m.setInput 0 true).stepFrame.1 = 33 from given]
  rfl

/-- After a frame of this program eleven of its forty-four cycles are held back. -/
theorem waking_conserved :
    (coded waking).Built (codeChips waking) ∧
      (∀ op ∈ [Operation.setInput 0 true, .stepFrame], op.Billed) ∧
      Charge.total ((coded waking).charges [.setInput 0 true, .stepFrame]) = 44 ∧
      ((coded waking).performAll [.setInput 0 true, .stepFrame]).2.cycles = 33 ∧
      ((coded waking).performAll [.setInput 0 true, .stepFrame]).2.circuit.cpu.pending = 11 ∧
      ((coded waking).performAll [.setInput 0 true, .stepFrame]).2.frames = 1 ∧
      (((coded waking).performAll [.setInput 0 true, .stepFrame]).2.stepCycles 0).1.toNat =
        11 + Charge.total
          (((coded waking).performAll [.setInput 0 true, .stepFrame]).2.circuit.burstCharges 0) := by
  have built := built_coded waking
  have billed : ∀ op ∈ [Operation.setInput 0 true, .stepFrame], op.Billed := by
    simp [Operation.Billed, Operation.goesOn]
  obtain ⟨balance, cycles, frames, -, next⟩ := cycles_conserved built billed
  obtain ⟨given, held⟩ := performAll_waking built
  have paid := (next 0 (by decide)).1
  rw [given] at balance cycles
  have eleven : (11 : UInt32).toNat = 11 := rfl
  rw [held, eleven] at balance paid
  exact ⟨built, billed, balance.symm, cycles, held, frames, paid⟩

end Machine

end Cabinet
