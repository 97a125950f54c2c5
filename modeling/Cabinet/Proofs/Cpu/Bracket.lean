import Cabinet.Proofs.Board.Cells
import Cabinet.Proofs.Cpu.Trace
import Mathlib.Logic.Relation
/-!
# Calls and returns

A call, a restart and an accepted interrupt write two bytes below the stack pointer and continue
elsewhere (`Circuit.Enters`); a return reads two bytes and continues there (`Circuit.Returns`). Apart
from that they only read. Where the two bytes behave as memory, a return that finds them as they were
left goes back to where the call came from (`Circuit.returns_from_entry`), whatever has happened in
between.
-/

namespace Cabinet

/-! ### Only reading -/

section Reads

variable {σ : Type} [Bus σ] {P : σ → Prop} {a : UInt16} {s t : σ}

/-- The bus gets from one state to the other by being read. -/
def Bus.Reads : σ → σ → Prop := Relation.ReflTransGen fun s t => ∃ a, t = (Bus.read a s).2

theorem Bus.Keeps.reads (keeps : Bus.Keeps P) (r : Bus.Reads s t) (h : P s) : P t := by
  induction r with
  | refl => exact h
  | tail _ last ih =>
    obtain ⟨a, rfl⟩ := last
    exact keeps.read a ih

/-- Reading does not change memory. -/
theorem Bus.Holds.reads (holds : Bus.Holds P a) (keeps : Bus.Keeps P) (r : Bus.Reads s t) (h : P s) :
    Bus.peek a t = Bus.peek a s := by
  induction r with
  | refl => rfl
  | tail before last ih =>
    obtain ⟨b, rfl⟩ := last
    exact (holds b (keeps.reads before h)).trans ih

end Reads

namespace Circuit

variable {σ : Type} [Bus σ] {w e v : Circuit σ} {target back : UInt16}

theorem reads_fetch (w : Circuit σ) : Bus.Reads w.bus w.fetch.2.bus := .single ⟨w.cpu.pc, rfl⟩

/-! ### Entering -/

/-- The word behind the first byte of the next instruction. -/
def argument (w : Circuit σ) : UInt16 := (w.fetch.2.fetchOperand 2).1

/-- The bus when that word has been read. -/
def argumentBus (w : Circuit σ) : σ := (w.fetch.2.fetchOperand 2).2.bus

theorem fetchOperand_two (w : Circuit σ) :
    w.fetch.2.fetchOperand 2 = (w.argument, ⟨w.cpu.advance 3, w.argumentBus⟩) := by
  have behind : w.cpu.pc + 1 + 1 + 1 = w.cpu.pc + 3 := by
    rw [UInt16.add_assoc, UInt16.add_assoc]
    rfl
  show (_, Circuit.mk { w.cpu with pc := w.cpu.pc + 1 + 1 + 1 } _) = _
  rw [behind]
  rfl

theorem reads_argumentBus (w : Circuit σ) : Bus.Reads w.bus w.argumentBus :=
  (w.reads_fetch.trans w.fetch.2.reads_fetch).trans w.fetch.2.fetch.2.reads_fetch

/-- The next instruction calls `target`, from which is to be returned to `back`. -/
inductive Calls (w : Circuit σ) : UInt16 → UInt16 → Prop where
  /-- A call, by any of its four bytes. -/
  | call (opcode : w.opcode ∈ [0xCD, 0xDD, 0xED, 0xFD]) : Calls w w.argument (w.cpu.pc + 3)
  /-- A conditional call whose condition holds. -/
  | conditional (cond : Cond) (opcode : w.opcode = 0xC4 + 8 * cond.field)
      (taken : cond.holds w.cpu.flags = true) : Calls w w.argument (w.cpu.pc + 3)
  /-- A restart. -/
  | restart (n : Fin 8) (opcode : w.opcode = 0xC7 + 8 * UInt8.ofNat n) :
      Calls w (8 * UInt16.ofNat n) (w.cpu.pc + 1)

theorem Calls.exists_call (running : w.cpu.halted = false) (h : w.Calls target back) :
    ∃ b, Bus.Reads w.bus b ∧ w.step.2 = (Circuit.mk { w.cpu with pc := back } b).call target := by
  cases h with
  | call opcode =>
    refine ⟨w.argumentBus, w.reads_argumentBus, ?_⟩
    rw [step_of_opcode running (Instruction.ofByte_call opcode)]
    show exec .call (w.fetch.2.fetchOperand 2).1 (w.fetch.2.fetchOperand 2).2 = _
    rw [fetchOperand_two]
    rfl
  | conditional cond opcode taken =>
    refine ⟨w.argumentBus, w.reads_argumentBus, ?_⟩
    rw [step_of_opcode running (opcode ▸ Instruction.ofByte_ccc cond)]
    show exec (.ccc cond) (w.fetch.2.fetchOperand 2).1 (w.fetch.2.fetchOperand 2).2 = _
    rw [fetchOperand_two]
    exact if_pos taken
  | restart n opcode =>
    refine ⟨w.fetch.2.bus, w.reads_fetch, ?_⟩
    rw [step_of_opcode running (opcode ▸ Instruction.ofByte_rst n)]
    rfl

/-- By a call or an interrupt the circuit has become `e`, from which is to be returned to `back`. -/
inductive Enters (w : Circuit σ) : Circuit σ → UInt16 → Prop where
  /-- By a step, which calls. -/
  | call {target back : UInt16} (running : w.cpu.halted = false) (calls : w.Calls target back) :
      Enters w w.step.2 back
  /-- By an interrupt, which is accepted. -/
  | interrupt (vector : UInt16) (enabled : w.cpu.inte = true) :
      Enters w (w.interrupt vector).2 w.cpu.pc

/-- **Entering pushes the way back**, and otherwise only reads. -/
theorem Enters.pushes (h : w.Enters e back) :
    e.cpu.sp = w.cpu.sp - 2 ∧ ∃ b, Bus.Reads w.bus b ∧
      e.bus = Bus.write (w.cpu.sp - 2) (loByte back) (Bus.write (w.cpu.sp - 1) (hiByte back) b) := by
  cases h with
  | call running calls =>
    obtain ⟨b, reads, step⟩ := calls.exists_call running
    rw [step]
    exact ⟨rfl, b, reads, rfl⟩
  | interrupt vector enabled =>
    rw [interrupt_of_enabled enabled]
    exact ⟨rfl, w.bus, .refl, rfl⟩

theorem Calls.cpu (running : w.cpu.halted = false) (h : w.Calls target back) :
    w.step.2.cpu = { w.cpu with sp := w.cpu.sp - 2, pc := target } := by
  obtain ⟨b, -, step⟩ := h.exists_call running
  rw [step]
  rfl

section Pushed

variable {P : σ → Prop} (keeps : Bus.Keeps P) (hP : P w.bus)
include keeps hP

theorem Enters.kept (h : w.Enters e back) : P e.bus := by
  obtain ⟨-, b, reads, bus⟩ := h.pushes
  rw [bus]
  exact keeps.write _ _ (keeps.write _ _ (keeps.reads reads hP))

/-- Entering leaves the rest of memory alone. -/
theorem Enters.peek_eq (h : w.Enters e back) {a : UInt16} (holds : Bus.Holds P a)
    (high : Bus.Apart P (w.cpu.sp - 1) a) (low : Bus.Apart P (w.cpu.sp - 2) a) :
    Bus.peek a e.bus = Bus.peek a w.bus := by
  obtain ⟨-, b, reads, bus⟩ := h.pushes
  have fetched : P b := keeps.reads reads hP
  rw [bus, low _ (keeps.write _ _ fetched), high _ fetched, holds.reads keeps reads hP]

/-- The two bytes below the stack pointer are the way back. -/
theorem Enters.peek_stack (h : w.Enters e back) (high : Bus.Stores P (w.cpu.sp - 1))
    (low : Bus.Stores P (w.cpu.sp - 2)) (apart : Bus.Apart P (w.cpu.sp - 2) (w.cpu.sp - 1)) :
    Bus.peek (w.cpu.sp - 1) e.bus = hiByte back ∧ Bus.peek (w.cpu.sp - 2) e.bus = loByte back := by
  obtain ⟨-, b, reads, bus⟩ := h.pushes
  have fetched : P b := keeps.reads reads hP
  -- The high byte goes first, and has to survive the low byte.
  have pushed := keeps.write (w.cpu.sp - 1) (hiByte back) fetched
  rw [bus]
  constructor
  · rw [apart _ pushed, high.stored _ fetched]
  · exact low.stored _ pushed

end Pushed

/-! ### Returning -/

/-- The next instruction returns. -/
inductive Returns (v : Circuit σ) : Prop where
  /-- A return, by either of its two bytes. -/
  | ret (opcode : v.opcode ∈ [0xC9, 0xD9])
  /-- A conditional return whose condition holds. -/
  | conditional (cond : Cond) (opcode : v.opcode = 0xC0 + 8 * cond.field)
      (taken : cond.holds v.cpu.flags = true)

theorem Returns.step_eq (running : v.cpu.halted = false) (h : v.Returns) :
    v.step.2 = v.fetch.2.ret := by
  cases h with
  | ret opcode =>
    rw [step_of_opcode running (Instruction.ofByte_ret opcode)]
    rfl
  | conditional cond opcode taken =>
    rw [step_of_opcode running (opcode ▸ Instruction.ofByte_rcc cond)]
    exact if_pos taken

/-- Returning only reads. -/
theorem Returns.reads (running : v.cpu.halted = false) (h : v.Returns) :
    Bus.Reads v.bus v.step.2.bus := by
  rw [h.step_eq running]
  exact (v.reads_fetch.tail ⟨v.cpu.sp, rfl⟩).tail ⟨v.cpu.sp + 1, rfl⟩

/-- **Returning pops the way back.** -/
theorem Returns.pops {P : σ → Prop} (keeps : Bus.Keeps P) (hP : P v.bus)
    (running : v.cpu.halted = false) (low : Bus.Holds P v.cpu.sp) (high : Bus.Holds P (v.cpu.sp + 1))
    (h : v.Returns) :
    v.step.2.cpu = { v.cpu with
      sp := v.cpu.sp + 2
      pc := word (Bus.peek (v.cpu.sp + 1) v.bus) (Bus.peek v.cpu.sp v.bus) } := by
  have fetched : P v.fetch.2.bus := keeps.reads v.reads_fetch hP
  have lowByte : Bus.peek v.cpu.sp v.fetch.2.bus = Bus.peek v.cpu.sp v.bus := low _ hP
  have highByte : Bus.peek (v.cpu.sp + 1) (Bus.read v.cpu.sp v.fetch.2.bus).2 =
      Bus.peek (v.cpu.sp + 1) v.bus := (high _ fetched).trans (high _ hP)
  rw [h.step_eq running, ← lowByte, ← highByte]
  rfl

/-! ### Brackets -/

theorem cpu_interrupt (enabled : w.cpu.inte = true) (vector : UInt16) :
    (w.interrupt vector).2.cpu = { w.cpu with
      sp := w.cpu.sp - 2
      pc := vector
      inte := false
      halted := false
      pending := addCycles w.cpu.pending interruptCycles } := by
  rw [interrupt_of_enabled enabled]
  rfl

theorem trace_interrupt_of_disabled (disabled : w.cpu.inte = false) (vector : UInt16) :
    (w.traced.interrupt vector).2.bus.trace = #[] := by
  rw [interrupt_of_disabled (w := w.traced) disabled]
  rfl

/-- **A return goes back to where the call came from.** On any bus whose two bytes below the stack
pointer behave as memory:

* a call sets the stack pointer and the program counter and nothing else of the processor;
* an accepted interrupt also clears the two flip-flops and adds its cost, as far as it is counted, and
  an interrupt that is not accepted changes nothing and does not touch the bus;
* both read, and write the two bytes, so they leave the rest of memory alone;
* from any later state with the stack pointer and the two bytes as they were left, a return only reads,
  and restores the stack pointer and goes on behind the call, or where the interrupt came. -/
theorem returns_from_entry {P : σ → Prop} (keeps : Bus.Keeps P) (hP : P w.bus)
    (high : Bus.Stores P (w.cpu.sp - 1)) (low : Bus.Stores P (w.cpu.sp - 2))
    (apart : Bus.Apart P (w.cpu.sp - 2) (w.cpu.sp - 1)) :
    (∀ target back, w.cpu.halted = false → w.Calls target back →
      w.step.2.cpu = { w.cpu with sp := w.cpu.sp - 2, pc := target }) ∧
    (∀ vector, w.cpu.inte = true → (w.interrupt vector).1 = true ∧
      ∃ pending : UInt32, pending.toNat = min 0xFFFFFFFF (w.cpu.pending.toNat + 11) ∧
        (w.interrupt vector).2.cpu = { w.cpu with
          sp := w.cpu.sp - 2, pc := vector, inte := false, halted := false, pending }) ∧
    (∀ vector, w.cpu.inte = false → w.interrupt vector = (false, w) ∧
      (w.traced.interrupt vector).2.bus.trace = #[]) ∧
    ∀ e back, w.Enters e back →
      P e.bus ∧
      (∃ b, Bus.Reads w.bus b ∧ e.bus =
        Bus.write (w.cpu.sp - 2) (loByte back) (Bus.write (w.cpu.sp - 1) (hiByte back) b)) ∧
      (∀ a, Bus.Holds P a → Bus.Apart P (w.cpu.sp - 1) a → Bus.Apart P (w.cpu.sp - 2) a →
        Bus.peek a e.bus = Bus.peek a w.bus) ∧
      ∀ v : Circuit σ, P v.bus → v.cpu.halted = false → v.cpu.sp = e.cpu.sp →
        Bus.peek (w.cpu.sp - 1) v.bus = Bus.peek (w.cpu.sp - 1) e.bus →
        Bus.peek (w.cpu.sp - 2) v.bus = Bus.peek (w.cpu.sp - 2) e.bus → v.Returns →
          v.step.2.cpu = { v.cpu with sp := w.cpu.sp, pc := back } ∧
          Bus.Reads v.bus v.step.2.bus ∧
          ∀ a, Bus.Holds P a → Bus.peek a v.step.2.bus = Bus.peek a v.bus := by
  refine ⟨?_, ?_, ?_, ?_⟩
  · intro target back running calls
    exact calls.cpu running
  · intro vector enabled
    have accepted : (w.interrupt vector).1 = true := by rw [interrupt_of_enabled enabled]
    exact ⟨accepted, _, toNat_addCycles _ _, cpu_interrupt enabled vector⟩
  · intro vector disabled
    exact ⟨interrupt_of_disabled disabled vector, trace_interrupt_of_disabled disabled vector⟩
  · intro e back entered
    obtain ⟨sp, bus⟩ := entered.pushes
    refine ⟨entered.kept keeps hP, bus, ?_, ?_⟩
    · intro a holds
      exact entered.peek_eq keeps hP holds
    · intro v hv running same highSame lowSame returns
      obtain ⟨highByte, lowByte⟩ := entered.peek_stack keeps hP high low apart
      have below : v.cpu.sp = w.cpu.sp - 2 := same.trans sp
      have above : v.cpu.sp + 1 = w.cpu.sp - 1 := by
        rw [below]
        grind
      have restored : v.cpu.sp + 2 = w.cpu.sp := by
        rw [below]
        exact UInt16.sub_add_cancel _ _
      have popped := returns.pops keeps hv running (below ▸ low.holds) (above ▸ high.holds)
      rw [above, restored, below, highSame, lowSame, highByte, lowByte, word_hiByte_loByte] at popped
      refine ⟨popped, returns.reads running, ?_⟩
      intro a holds
      exact holds.reads keeps (returns.reads running) hv

theorem opcode_eq_peek (w : Circuit σ) : w.opcode = Bus.peek w.cpu.pc w.bus := rfl

/-- A halted processor that waits for an interrupt, with a return at the address that is called. -/
def waiting : Circuit Board where
  cpu := { sp := 0x2400, pc := 0x0002, inte := true, halted := true }
  bus := .flat [0xFB, 0x76, 0x00, 0x00, 0x00, 0x00, 0x00, 0x00, 0xC9]

/-- It is woken, and goes on behind its halt. -/
theorem waiting_returns : waiting.Enters (waiting.interrupt 0x0008).2 0x0002 ∧
    (waiting.interrupt 0x0008).2.Returns ∧
    (waiting.interrupt 0x0008).2.step.2.cpu = { sp := 0x2400, pc := 0x0002, pending := 11 } := by
  let P : Board → Prop := fun board =>
    Board.Writable (waiting.cpu.sp - 1) board ∧ Board.Writable (waiting.cpu.sp - 2) board
  have keeps : Bus.Keeps P := (Board.keeps_writable _).and (Board.keeps_writable _)
  have free : P waiting.bus := ⟨Board.writable_flat _ _, Board.writable_flat _ _⟩
  have high : Bus.Stores P (waiting.cpu.sp - 1) := (Board.stores _).mono fun _ h => h.1
  have low : Bus.Stores P (waiting.cpu.sp - 2) := (Board.stores _).mono fun _ h => h.2
  obtain ⟨-, -, -, bracket⟩ := returns_from_entry keeps free high low (Board.apart P (by decide))
  have entered : waiting.Enters (waiting.interrupt 0x0008).2 0x0002 := .interrupt 0x0008 rfl
  obtain ⟨kept, -, memory, back⟩ := bracket _ _ entered
  have woken := cpu_interrupt (w := waiting) rfl 0x0008
  have returns : (waiting.interrupt 0x0008).2.Returns := by
    refine .ret ?_
    rw [opcode_eq_peek, woken, memory 0x0008 (Board.holds P _) (Board.apart P (by decide))
      (Board.apart P (by decide)), Bus.peek, waiting, Board.read_flat]
    decide
  obtain ⟨cpu, -, -⟩ := back _ kept (by rw [woken]) rfl rfl rfl returns
  rw [woken] at cpu
  exact ⟨entered, returns, cpu⟩

/-- A processor to which the cost of an interrupt cannot be added any more. -/
def saturated : Circuit Board where
  cpu := { sp := 0x2400, inte := true, pending := 0xFFFFFFFF }
  bus := .flat []

/-- **The cost of an interrupt is not always added**: the count stops at its greatest value. -/
theorem pending_interrupt_saturated :
    Board.Writable (saturated.cpu.sp - 1) saturated.bus ∧
      Board.Writable (saturated.cpu.sp - 2) saturated.bus ∧
      (saturated.interrupt 0x0008).1 = true ∧
      (saturated.interrupt 0x0008).2.cpu.pending = saturated.cpu.pending ∧
      (saturated.interrupt 0x0008).2.cpu.pending.toNat ≠ saturated.cpu.pending.toNat + 11 := by
  have after : (saturated.interrupt 0x0008).2.cpu.pending = 0xFFFFFFFF := by
    rw [cpu_interrupt rfl]
    decide
  refine ⟨Board.writable_flat _ _, Board.writable_flat _ _, rfl, after, ?_⟩
  rw [after]
  decide

end Circuit

end Cabinet
