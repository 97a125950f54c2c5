import Cabinet.Proofs.Cpu.Bracket
import Cabinet.Proofs.Machine.Independence
import Cabinet.Proofs.Machine.Ledger
/-!
# Halted for good, or until an interrupt

A processor that is halted waits for an interrupt, and each frame tries two. If it is closed to
interrupts nothing wakes it: whatever the owner does with the machine, short of starting anew or putting
a record back, it rests (`Machine.Rests`, which one call keeps and so any number of them does), and time
passes by the budgets alone. What differs if it is open to them is one flip-flop: then the first half of
a frame passes, the interrupt in the middle of the screen pushes where it has halted, and the second half
is a run of what stands at 0008 (`Machine.Wakes`).
-/

namespace Cabinet

/-! ### What the owner does meanwhile -/

/-- It neither starts anew nor puts a record back. -/
def Call.goesOn : Call → Bool
  | .operate op => op.goesOn
  | .observe => true

/-- The address that the owner writes to, if it is a write. -/
def Call.target? : Call → Option UInt16
  | .operate (.write a _) => some a
  | _ => none

/-- The cycles that it takes if the processor is halted all the time, if it is a step. -/
def Call.idleCycles? : Call → Option UInt32
  | .operate .stepFrame => some 34132
  | .operate (.stepCycles budget) => some budget
  | _ => none

namespace Machine

open Circuit

variable {chips : Chips} {m n k : Machine} {written written' : List UInt16}

/-! ### Rest -/

/-- The processor is halted, and closed to interrupts. -/
def Asleep (m : Machine) : Prop := m.circuit.cpu.halted = true ∧ m.circuit.cpu.inte = false

/-- From `m` to `n` nothing of the processor has changed but the cycles held back, nothing of the
shifter, and of memory the addresses written to at most. -/
structure Rests (written : List UInt16) (m n : Machine) : Prop where
  /-- Registers, flags, stack pointer, program counter and both flip-flops are as they were. -/
  cpu : ∃ pending, n.circuit.cpu = { m.circuit.cpu with pending }
  /-- The shifter is as it was. -/
  shifter : n.board.shifter = m.board.shifter
  /-- All other addresses read as they did. -/
  read : ∀ a, a ∉ written → n.read a = m.read a

theorem Rests.refl (m : Machine) : Rests [] m m := ⟨⟨m.circuit.cpu.pending, rfl⟩, rfl, fun _ _ => rfl⟩

theorem Rests.trans (h : Rests written m n) (h' : Rests written' n k) :
    Rests (written ++ written') m k := by
  obtain ⟨pending, cpu⟩ := h.cpu
  obtain ⟨pending', cpu'⟩ := h'.cpu
  refine ⟨⟨pending', by rw [cpu', cpu]⟩, h'.shifter.trans h.shifter, fun a ha => ?_⟩
  rw [List.mem_append, not_or] at ha
  exact (h'.read a ha.2).trans (h.read a ha.1)

/-- Who rests stays asleep. -/
theorem Rests.asleep (h : Rests written m n) (hm : m.Asleep) : n.Asleep := by
  obtain ⟨pending, cpu⟩ := h.cpu
  rw [Asleep, cpu]
  exact hm

theorem Rests.of_memory (cpu : ∃ pending, n.circuit.cpu = { m.circuit.cpu with pending })
    (memory : n.board.memory = m.board.memory) (shifter : n.board.shifter = m.board.shifter) :
    Rests [] m n :=
  ⟨cpu, shifter, fun a _ => congrArg (·.read a) memory⟩

theorem Rests.of_circuit (same : n.circuit = m.circuit) : Rests [] m n :=
  .of_memory ⟨m.circuit.cpu.pending, congrArg Circuit.cpu same⟩ (congrArg (·.bus.memory) same)
    (congrArg (·.bus.shifter) same)

theorem Rests.of_uncharged (same : n.circuit = m.circuit.uncharged) : Rests [] m n :=
  .of_memory ⟨0, congrArg Circuit.cpu same⟩ (congrArg (·.bus.memory) same)
    (congrArg (·.bus.shifter) same)

theorem rests_setInput (m : Machine) (id : UInt8) (pressed : Bool) :
    Rests [] m (m.setInput id pressed) := by
  unfold setInput
  split
  · exact .of_memory ⟨m.circuit.cpu.pending, rfl⟩ rfl rfl
  · exact .refl m

theorem rests_write (m : Machine) (a : UInt16) (v : UInt8) : Rests [a] m (m.write a v) := by
  refine ⟨⟨m.circuit.cpu.pending, rfl⟩, rfl, fun b hb => ?_⟩
  rw [List.mem_singleton] at hb
  exact AddressSpace.read_write_of_ne hb v

/-- A frame tries two interrupts, and neither is accepted. -/
theorem Asleep.stepFrame (h : m.Asleep) : m.stepFrame.1 = 34132 ∧ Rests [] m m.stepFrame.2 := by
  have first : m.circuit.execute halfFrame = (halfFrame, m.circuit.uncharged) :=
    execute_of_halted h.1 halfFrame
  have mid : m.circuit.uncharged.interrupt midScreen = (false, m.circuit.uncharged) :=
    interrupt_of_disabled (w := m.circuit.uncharged) h.2 midScreen
  have second : m.circuit.uncharged.execute halfFrame = (halfFrame, m.circuit.uncharged) :=
    execute_of_halted (w := m.circuit.uncharged) h.1 halfFrame
  have last : m.circuit.uncharged.interrupt endScreen = (false, m.circuit.uncharged) :=
    interrupt_of_disabled (w := m.circuit.uncharged) h.2 endScreen
  constructor
  · rw [cycles_stepFrame, first, mid, second]
    show addCycles halfFrame halfFrame = 34132
    decide
  · refine .of_uncharged ?_
    rw [circuit_stepFrame, frame, first, mid, second, last]

theorem Asleep.stepCycles (h : m.Asleep) (budget : UInt32) :
    (m.stepCycles budget).1 = budget ∧ Rests [] m (m.stepCycles budget).2 := by
  have burst := execute_of_halted h.1 budget
  exact ⟨congrArg Prod.fst burst, .of_uncharged (congrArg Prod.snd burst)⟩

/-- **One call does not wake it**, and takes the cycles of its budget. -/
theorem Asleep.call (h : m.Asleep) {c : Call} (hc : c.goesOn = true) :
    (m.call c).1.cycles? = c.idleCycles? ∧ Rests c.target?.toList m (m.call c).2 := by
  cases c with
  | observe => exact ⟨rfl, .refl m⟩
  | operate op =>
    cases op with
    | stepFrame => exact ⟨congrArg some h.stepFrame.1, h.stepFrame.2⟩
    | stepCycles budget => exact ⟨congrArg some (h.stepCycles budget).1, (h.stepCycles budget).2⟩
    | setInput id pressed => exact ⟨rfl, rests_setInput m id pressed⟩
    | setInputBits | setDips => exact ⟨rfl, .of_memory ⟨m.circuit.cpu.pending, rfl⟩ rfl rfl⟩
    | write a v => exact ⟨rfl, rests_write m a v⟩
    | updatePixels => exact ⟨rfl, .of_circuit m.circuit_updatePixels⟩
    | setSpeed | setUncapped | setMap => exact ⟨rfl, .of_circuit rfl⟩
    | reset | load | restore => cases hc

/-- **Nothing wakes it**: any number of calls takes the cycles of their budgets. -/
theorem Asleep.callAll (h : m.Asleep) {cs : List Call} (hcs : ∀ c ∈ cs, c.goesOn = true) :
    m.cyclesOf cs = cs.filterMap Call.idleCycles? ∧
      Rests (cs.filterMap Call.target?) m (m.callAll cs).2 := by
  induction cs generalizing m with
  | nil => exact ⟨rfl, .refl m⟩
  | cons c cs ih =>
    obtain ⟨cycles, first⟩ := h.call (hcs c (List.mem_cons_self ..))
    obtain ⟨more, rest⟩ := ih (first.asleep h) fun c hc => hcs c (List.mem_cons_of_mem _ hc)
    have joined := first.trans rest
    constructor
    · rw [cyclesOf_cons, cycles, more, List.filterMap_cons]
      cases c.idleCycles? <;> rfl
    · rw [List.filterMap_cons]
      cases ht : c.target? with
      | none =>
        rw [ht] at joined
        exact joined
      | some a =>
        rw [ht] at joined
        exact joined

/-! ### Waking -/

/-- The circuit as the interrupt in the middle of the screen leaves one that has halted: the program
counter is pushed. -/
def woken (m : Machine) : Circuit Board where
  cpu := { m.circuit.cpu with
    sp := m.circuit.cpu.sp - 2
    pc := 0x0008
    inte := false
    halted := false
    pending := 11 }
  bus := ((m.write (m.circuit.cpu.sp - 1) (hiByte m.circuit.cpu.pc)).write
    (m.circuit.cpu.sp - 2) (loByte m.circuit.cpu.pc)).board

/-- How a frame wakes a machine that has halted. -/
structure Wakes (m : Machine) : Prop where
  /-- The first burst passes, and changes nothing. -/
  idles : m.circuit.execute halfFrame = (17066, m.circuit.uncharged)
  /-- The interrupt in the middle of the screen is accepted. -/
  accepted : m.circuit.uncharged.interrupt midScreen = (true, m.woken)
  /-- Where the stack is in memory that takes writes, it holds the program counter. -/
  pushed : (∀ a ∈ [m.circuit.cpu.sp - 1, m.circuit.cpu.sp - 2], 0x2000 ≤ a ∧ a < 0x4000) →
    word (Bus.peek (m.circuit.cpu.sp - 1) m.woken.bus) (Bus.peek (m.circuit.cpu.sp - 2) m.woken.bus) =
      m.circuit.cpu.pc
  /-- The instruction at 0008 is the next one. -/
  opcode : m.woken.uncharged.opcode = m.read 0x0008
  /-- It is executed in the second burst. -/
  resumes : 0 < m.woken.burstLength halfFrame
  /-- The frame takes half of it and the second burst. -/
  cycles : m.stepFrame.1.toNat = 17066 + (m.woken.execute halfFrame).1.toNat
  /-- The frame ends with the second burst and the other interrupt. -/
  ends : m.stepFrame.2.circuit = ((m.woken.execute halfFrame).2.interrupt endScreen).2

theorem interrupt_uncharged (enabled : m.circuit.cpu.inte = true) :
    m.circuit.uncharged.interrupt midScreen = (true, m.woken) := by
  rw [interrupt_of_enabled (w := m.circuit.uncharged) enabled]
  rfl

theorem Sound.writable {rom : Block} {checksums : List UInt32} (h : m.Sound rom checksums) {a : UInt16}
    (within : 0x2000 ≤ a ∧ a < 0x4000) : Board.Writable a m.board := by
  obtain ⟨ram, hm⟩ := h.memory
  have inside : (Bank.work ram).contains a = true := by
    rw [Bank.contains_work]
    exact decide_eq_true within
  have cell := AddressSpace.cell_toMap (s := .ofBlocks rom ram)
    (List.mem_cons_of_mem _ (List.mem_singleton_self _)) inside
  rw [← hm] at cell
  exact ⟨_, cell⟩

/-- The stack after the interrupt holds the program counter. -/
theorem peek_woken (enabled : m.circuit.cpu.inte = true)
    (high : Board.Writable (m.circuit.cpu.sp - 1) m.board)
    (low : Board.Writable (m.circuit.cpu.sp - 2) m.board) :
    word (Bus.peek (m.circuit.cpu.sp - 1) m.woken.bus) (Bus.peek (m.circuit.cpu.sp - 2) m.woken.bus) =
      m.circuit.cpu.pc := by
  have entered := Enters.interrupt (w := m.circuit.uncharged) midScreen enabled
  rw [interrupt_uncharged enabled] at entered
  have apart : m.circuit.cpu.sp - 1 ≠ m.circuit.cpu.sp - 2 := by grind
  obtain ⟨highByte, lowByte⟩ := Enters.peek_stack (w := m.circuit.uncharged)
    ((Board.keeps_writable _).and (Board.keeps_writable _)) ⟨high, low⟩ entered
    ((Board.stores _).mono fun _ h => h.1) ((Board.stores _).mono fun _ h => h.2)
    (Board.apart _ apart)
  rw [← word_hiByte_loByte m.circuit.cpu.pc]
  exact congrArg₂ word highByte lowByte

theorem Reachable.wakes (h : m.Reachable chips) (halted : m.circuit.cpu.halted = true)
    (enabled : m.circuit.cpu.inte = true) : m.Wakes := by
  obtain ⟨rom, checksums, sound⟩ := exists_sound chips
  have idles : m.circuit.execute halfFrame = (17066, m.circuit.uncharged) :=
    execute_of_halted halted halfFrame
  have accepted := interrupt_uncharged enabled
  have program := (keeps_program rom).write (m.circuit.cpu.sp - 2) (loByte m.circuit.cpu.pc)
    ((keeps_program rom).write (m.circuit.cpu.sp - 1) (hiByte m.circuit.cpu.pc) (sound h).memory)
  refine ⟨idles, accepted, fun inside => ?_, ?_, ?_, ?_, ?_⟩
  · exact peek_woken enabled ((sound h).writable (inside _ (by simp)))
      ((sound h).writable (inside _ (by simp)))
  · have low : (0x0008 : UInt16).toNat < 0x2000 := by decide
    exact congrArg Prod.fst (busRead_of_memory (sound h).memory rfl low _ program)
  · refine (Nat.find_pos _).2 fun done => ?_
    obtain reached | asleep := over_zero.1 done
    · exact absurd reached (show ¬17066 ≤ 11 by decide)
    · cases asleep
  · have total := toNat_cycles_stepFrame (pending_le (sound h).pending)
    rw [idles, accepted] at total
    exact total
  · rw [circuit_stepFrame, frame, idles, accepted]

/-- **A halt is for good, unless interrupts are enabled.** Of a machine that has halted and is closed to
interrupts, whatever cycles it holds back, nothing of the processor and the shifter changes, nor of
memory but where the owner writes, and it stays halted, whatever the owner does short of starting anew
or putting a record back; each frame takes its two halves and each burst its budget, exactly. One that
is reached and open to interrupts is woken within a frame: half of it passes, the program counter is
pushed, and the program goes on at 0008. -/
theorem halt_lasts_unless_enabled :
    (∀ m : Machine, m.circuit.cpu.halted = true → m.circuit.cpu.inte = false →
      ∀ cs : List Call, (∀ c ∈ cs, c.goesOn = true) →
        m.cyclesOf cs = cs.filterMap Call.idleCycles? ∧
        Rests (cs.filterMap Call.target?) m (m.callAll cs).2 ∧
        (m.callAll cs).2.isHalted = true) ∧
    ∀ {chips : Chips} {m : Machine}, m.Reachable chips → m.circuit.cpu.halted = true →
      m.circuit.cpu.inte = true → m.Wakes := by
  constructor
  · intro m halted closed cs hcs
    obtain ⟨cycles, rests⟩ := Asleep.callAll ⟨halted, closed⟩ hcs
    exact ⟨cycles, rests, (rests.asleep ⟨halted, closed⟩).1⟩
  · intro chips m h
    exact h.wakes

/-- A record of a processor that has halted and holds back the cycles of an interrupt. -/
def dormant (inte : Bool) : SaveState where
  cpu := { sp := 0x2400, pc := 0x1234, inte, halted := true, pending := 11 }

theorem validate_dormant (inte : Bool) : (dormant inte).validate = .ok () :=
  SaveState.validate_eq_ok_iff.2 ⟨⟨Array.size_replicate, Bytes.size_zeros _⟩, .inr rfl⟩

/-- A machine that has taken this record. -/
def sleeper (inte : Bool) : Machine :=
  idle.put (dormant inte) (SaveState.size_pixels_of_validate (validate_dormant inte))

theorem reachable_sleeper (inte : Bool) : (sleeper inte).Reachable idleChips := by
  have restored := reachable_idle.perform (.restore (dormant inte))
  rw [perform, restore_of_ok (validate_dormant inte)] at restored
  exact restored

theorem cpu_sleeper (inte : Bool) :
    (sleeper inte).circuit.cpu = .ofSnapshot (dormant inte).cpu := rfl

/-- What is done with the one that is closed to interrupts. -/
def sleeperCalls : List Call :=
  [.operate .stepFrame, .operate (.write 0x2000 0x01), .observe, .operate (.stepCycles 5)]

theorem sleeper_sleeps_or_wakes :
    (sleeper false).Reachable idleChips ∧ (sleeper true).Reachable idleChips ∧
      (sleeper false).cyclesOf sleeperCalls = [34132, 5] ∧
      Rests [0x2000] (sleeper false) ((sleeper false).callAll sleeperCalls).2 ∧
      ((sleeper false).callAll sleeperCalls).2.isHalted = true ∧
      (sleeper true).Wakes ∧
      word (Bus.peek 0x23FF (sleeper true).woken.bus) (Bus.peek 0x23FE (sleeper true).woken.bus) =
        0x1234 := by
  have closed := cpu_sleeper false
  have enabled := cpu_sleeper true
  obtain ⟨sleep, wake⟩ := halt_lasts_unless_enabled
  obtain ⟨cycles, rests, halted⟩ := sleep (sleeper false) (by rw [closed]; rfl) (by rw [closed]; rfl)
    sleeperCalls (by decide)
  have wakes := wake (reachable_sleeper true) (by rw [enabled]; rfl) (by rw [enabled]; rfl)
  have high : (sleeper true).circuit.cpu.sp - 1 = 0x23FF := by rw [enabled]; rfl
  have low : (sleeper true).circuit.cpu.sp - 2 = 0x23FE := by rw [enabled]; rfl
  have pushed := wakes.pushed
  rw [high, low] at pushed
  have inside : ∀ a ∈ [(0x23FF : UInt16), 0x23FE], 0x2000 ≤ a ∧ a < 0x4000 :=
    List.forall_mem_cons.2 ⟨by decide, List.forall_mem_singleton.2 (by decide)⟩
  exact ⟨reachable_sleeper false, reachable_sleeper true, cycles, rests, halted, wakes, pushed inside⟩

end Machine

end Cabinet
