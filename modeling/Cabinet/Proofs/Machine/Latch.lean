import Cabinet.Proofs.Cpu.Trace
import Cabinet.Proofs.Machine.Regular
import Cabinet.Proofs.Machine.Stepping
import Mathlib.Data.List.Induction
/-!
# How the latch is wired

Bit 3 of the latch is wired high and bit 7 is not connected (`Latch.Wired`). What presses buttons and
what starts anew leaves a latch as wired, the processor cannot change the latch, and whatever it reads
at port 1 is the latch (`Machine.input_accesses`). A record, however, is put back with the byte that it
has. So a latch is not as wired if and only if such a record was the last to change it
(`Machine.unwired_iff_put`), and this happens (`Machine.unwired_reached`).
-/

namespace Cabinet

/-! ### Wired latches -/

/-- Bit 3 is set, and bit 7 is not. -/
def Latch.Wired (latch : Latch) : Prop := latch.bits &&& 0x88 = 0x08

instance (latch : Latch) : Decidable latch.Wired := inferInstanceAs (Decidable (_ = _))

theorem Latch.wired_idle : idle.Wired := by decide

theorem Latch.wired_ofBits (v : UInt8) : (ofBits v).Wired := by
  have h : ∀ n : Fin 256, (ofBits (UInt8.ofFin n)).Wired := by decide +kernel
  simpa using h v.toFin

theorem Latch.wired_set (latch : Latch) (b : Button) (pressed : Bool) :
    (latch.set b pressed).Wired :=
  wired_ofBits _

/-- What is read at port 1 is the latch. -/
theorem Board.grants_latch (latch : Latch) :
    Bus.Grants (fun board : Board => board.latch = latch) fun x =>
      x.kind = .input → Board.portNumber x.address = 1 → x.value = latch.bits where
  keeps := Board.keeps_latch latch
  read _ _ _ h := nomatch h
  write _ _ _ _ h := nomatch h
  input a board h _ port := by
    show board.input a = latch.bits
    unfold Board.input
    rw [port, ← h]
    rfl
  output _ _ _ _ h := nomatch h

/-! ### What an operation does to the latch -/

namespace Operation

/-- The operation presses or releases buttons, or starts anew. -/
def setsLatch : Operation → Bool
  | .reset | .setInputBits _ => true
  | .setInput id _ => (Button.ofId? id).isSome
  | _ => false

/-- The operation puts a record back: the record is accepted, or the bytes that hold it. -/
inductive Puts : Operation → SaveState → Prop where
  | restore {s : SaveState} (h : s.validate = .ok ()) : Puts (.restore s) s
  | load {b : ByteArray} {s : SaveState} (h : SaveState.ofBytes b = .ok s) : Puts (.load b) s

/-- The operation does neither. -/
def LeavesLatch (op : Operation) : Prop := op.setsLatch = false ∧ ∀ s, ¬op.Puts s

theorem sets_or_puts_or_leaves (op : Operation) :
    op.setsLatch = true ∨ (∃ s, op.Puts s) ∨ op.LeavesLatch := by
  cases sets : op.setsLatch with
  | true => exact .inl rfl
  | false =>
    by_cases puts : ∃ s, op.Puts s
    · exact .inr (.inl puts)
    · exact .inr (.inr ⟨sets, fun s h => puts ⟨s, h⟩⟩)

end Operation

namespace Machine

variable {chips : Chips} {m : Machine} {op : Operation} {s : SaveState}

theorem wired_perform (h : op.setsLatch = true) : (m.perform op).2.board.latch.Wired := by
  cases op with
  | reset => exact Latch.wired_idle
  | setInputBits bits => exact Latch.wired_ofBits bits
  | setInput id pressed =>
    obtain ⟨button, found⟩ := Option.isSome_iff_exists.1 h
    simp only [perform, setInput, found]
    exact Latch.wired_set ..
  | _ => cases h

theorem latch_perform_of_puts (h : op.Puts s) : (m.perform op).2.board.latch = ⟨s.input⟩ := by
  cases h with
  | restore h =>
    rw [perform, restore_of_ok h]
    rfl
  | load h =>
    rw [perform, load_of_ok h]
    rfl

theorem latch_perform_of_leaves (h : op.LeavesLatch) :
    (m.perform op).2.board.latch = m.board.latch := by
  cases op with
  | stepFrame => exact stepFrame_keeps (Board.keeps_latch m.board.latch) rfl
  | stepCycles budget => exact Circuit.execute_keeps (Board.keeps_latch m.board.latch) rfl budget
  | reset | setInputBits => cases h.1
  | setInput id pressed =>
    have none : Button.ofId? id = none := Option.not_isSome_iff_eq_none.1 (Bool.eq_false_iff.1 h.1)
    simp only [perform, setInput, none]
  | updatePixels =>
    show m.updatePixels.circuit.bus.latch = _
    rw [circuit_updatePixels]
    rfl
  | setDips | setSpeed | setUncapped | write | setMap => rfl
  | load b =>
    cases hb : SaveState.ofBytes b with
    | error e =>
      rw [perform, load_of_error hb]
      rfl
    | ok s => exact absurd (.load hb) (h.2 s)
  | restore s =>
    cases hs : s.validate with
    | error e =>
      rw [perform, restore_of_error hs]
      rfl
    | ok u => exact absurd (.restore hs) (h.2 s)

/-! ### Any number of operations -/

theorem latch_performAll_of_leaves {ops : List Operation} (h : ∀ op ∈ ops, op.LeavesLatch) :
    (m.performAll ops).2.board.latch = m.board.latch := by
  induction ops generalizing m with
  | nil => rfl
  | cons op ops ih =>
    have first := latch_perform_of_leaves (m := m) (h op (List.mem_cons_self ..))
    exact (ih fun op hop => h op (List.mem_cons_of_mem _ hop)).trans first

/-- **The latch is as wired unless a record that is not was the last to change it.** -/
theorem wired_or_put (hm : m.board.latch.Wired) (ops : List Operation) :
    (m.performAll ops).2.board.latch.Wired ∨
      ∃ before put after s, ops = before ++ put :: after ∧ put.Puts s ∧ ¬Latch.Wired ⟨s.input⟩ ∧
        ∀ op ∈ after, op.LeavesLatch := by
  induction ops using List.reverseRecOn with
  | nil => exact .inl hm
  | append_singleton ops op ih =>
    rw [performAll_append, performAll_singleton]
    obtain sets | ⟨s, puts⟩ | leaves := op.sets_or_puts_or_leaves
    · exact .inl (wired_perform sets)
    · by_cases wired : Latch.Wired ⟨s.input⟩
      · exact .inl (latch_perform_of_puts puts ▸ wired)
      · exact .inr ⟨ops, op, [], s, rfl, puts, wired, fun _ h => absurd h List.not_mem_nil⟩
    · obtain wired | ⟨before, put, after, s, rfl, puts, unwired, rest⟩ := ih
      · left
        rw [latch_perform_of_leaves leaves]
        exact wired
      · refine .inr ⟨before, put, after ++ [op], s, by simp, puts, unwired, fun op' h => ?_⟩
        obtain h | h := List.mem_append.1 h
        · exact rest op' h
        · exact List.mem_singleton.1 h ▸ leaves

theorem Built.wired (h : m.Built chips) : m.board.latch.Wired := by
  obtain ⟨program, settings, hp, rfl⟩ := h.exists_fresh
  exact Latch.wired_idle

/-! ### What is read at port 1 -/

/-- The processor during an operation, with a bus that records the accesses. -/
def tracedRun (m : Machine) : Operation → Circuit (Traced Board)
  | .stepFrame => frame m.circuit.traced
  | .stepCycles budget => (m.circuit.traced.execute budget).2
  | _ => m.circuit.traced

/-- The accesses that the processor makes during an operation, oldest first. -/
def accesses (m : Machine) (op : Operation) : Array Bus.Access := (m.tracedRun op).bus.trace

/-- Recording the accesses changes nothing of the run. -/
theorem alike_tracedRun (m : Machine) (h : op.runs = true) :
    Circuit.Alike (fun (s : Board) (t : Traced Board) => t.bus = s) (m.perform op).2.circuit
      (m.tracedRun op) := by
  cases op with
  | stepFrame => exact frame_alike Traced.simulation m.circuit.alike_traced
  | stepCycles budget => exact (m.circuit.alike_traced.execute Traced.simulation budget).alike
  | _ => cases h

/-- **What the processor reads at port 1 is the latch.** -/
theorem input_accesses (m : Machine) (op : Operation) :
    ∀ x ∈ m.accesses op, x.kind = .input → Board.portNumber x.address = 1 →
      x.value = m.board.latch.bits := by
  have keeps := (Board.grants_latch m.board.latch).traced
  cases op with
  | stepFrame => exact (frame_keeps keeps (Circuit.granted_traced rfl)).2
  | stepCycles budget => exact (Circuit.execute_keeps keeps (Circuit.granted_traced rfl) budget).2
  | _ => exact fun x hx => absurd hx (Array.not_mem_empty x)

/-- **The latch is not as wired if and only if a record that is not was the last to change it**, and
what is read at port 1 is the latch at all times. -/
theorem unwired_iff_put (h : m.Built chips) (ops : List Operation) :
    (¬(m.performAll ops).2.board.latch.Wired ↔
      ∃ before put after s, ops = before ++ put :: after ∧ put.Puts s ∧ ¬Latch.Wired ⟨s.input⟩ ∧
        ∀ op ∈ after, op.LeavesLatch) ∧
      ∀ op, ∀ x ∈ (m.performAll ops).2.accesses op, x.kind = .input →
        Board.portNumber x.address = 1 → x.value = (m.performAll ops).2.board.latch.bits := by
  refine ⟨⟨fun unwired => ?_, ?_⟩, input_accesses _⟩
  · exact (wired_or_put h.wired ops).resolve_left unwired
  · rintro ⟨before, put, after, s, rfl, puts, unwired, rest⟩
    rw [performAll_append]
    show ¬(((m.performAll before).2.perform put).2.performAll after).2.board.latch.Wired
    rw [latch_performAll_of_leaves rest, latch_perform_of_puts puts]
    exact unwired

end Machine

/-! ### A latch that is not as wired -/

namespace Circuit

variable {σ : Type} [Bus σ] {w : Circuit σ} {s s' s'' : σ} {n v : UInt8}

theorem stepRunning_in (h : Bus.read w.cpu.pc w.bus = (0xDB, s))
    (h' : Bus.read (w.cpu.pc + 1) s = (n, s')) (hi : Bus.input (portAddress n) s' = (v, s'')) :
    w.stepRunning = (10, ⟨{ w.cpu with pc := w.cpu.pc + 1 + 1, a := v }, s''⟩) := by
  have decoded : Instruction.ofByte 0xDB = .input := Instruction.ofByte_eq_decode _
  have low : loByte n.toUInt16 = n := by simp [loByte]
  rw [stepRunning_of_read_operand h decoded rfl h']
  simp only [exec, low, hi]
  rfl

theorem bus_run_in (awake : w.cpu.halted = false) (h : Bus.read w.cpu.pc w.bus = (0xDB, s))
    (h' : Bus.read (w.cpu.pc + 1) s = (n, s')) (hi : Bus.input (portAddress n) s' = (v, s'')) :
    (run 10 0 w).2.bus = s'' := by
  have spent : ¬(10 : UInt32) < 10 := by decide
  rw [run_of_lt (by decide) awake, stepRunning_in h h' hi]
  exact congrArg (fun r : UInt32 × Circuit σ => r.2.bus) (run_of_not fun hw => spent hw.1)

/-- A burst of one instruction, IN. -/
theorem bus_execute_in (awake : w.cpu.halted = false) (charged : w.cpu.pending = 0)
    (h : Bus.read w.cpu.pc w.bus = (0xDB, s)) (h' : Bus.read (w.cpu.pc + 1) s = (n, s'))
    (hi : Bus.input (portAddress n) s' = (v, s'')) : (w.execute 10).2.bus = s'' := by
  rw [execute_of_running awake, charged]
  exact bus_run_in (w := w.mapCpu ({ · with pending := 0 })) awake h h' hi

end Circuit

namespace Machine

variable {chips : Chips} {m : Machine}

/-- A program that reads port 1: IN 1 at 0001. -/
def polling : List UInt8 := [0xDB, 0x01]

theorem accesses_polling (h : m.Reachable (codeChips polling))
    (cpu : m.circuit.cpu = .atReset resetVector) :
    ⟨.input, 0x0101, m.board.latch.bits⟩ ∈ m.accesses (.stepCycles 10) := by
  have read : ∀ (t : Traced Board) {a : UInt16} {v : UInt8}, t.bus = m.board → m.read a = v →
      Bus.read a t = (v, t.record .read a v m.board) := by
    rintro t a _ ht rfl
    show (t.bus.memory.read a, t.record .read a (t.bus.memory.read a) t.bus) = _
    rw [ht]
    rfl
  have input : ∀ t : Traced Board, t.bus = m.board →
      Bus.input 0x0101 t =
        (m.board.latch.bits, t.record .input 0x0101 m.board.latch.bits m.board) := by
    intro t ht
    show (t.bus.input 0x0101, t.record .input 0x0101 (t.bus.input 0x0101) t.bus) = _
    rw [ht]
    rfl
  have code : m.read m.circuit.cpu.pc = 0xDB := by
    rw [cpu]
    exact h.read_code (k := 0) (by decide) (by decide)
  have port : m.read (m.circuit.cpu.pc + 1) = 0x01 := by
    rw [cpu]
    exact h.read_code (k := 1) (by decide) (by decide)
  have run : (m.circuit.traced.execute 10).2.bus =
      ((m.circuit.traced.bus.record .read m.circuit.cpu.pc 0xDB m.board).record
        .read (m.circuit.cpu.pc + 1) 0x01 m.board).record
        .input 0x0101 m.board.latch.bits m.board :=
    Circuit.bus_execute_in (congrArg Cpu.halted cpu) (congrArg Cpu.pending cpu) (read _ rfl code)
      (read _ rfl port) (input _ rfl)
  show _ ∈ (m.circuit.traced.execute 10).2.bus.trace
  rw [run]
  exact Array.mem_push_self

/-- The record of a machine, with bit 7 of the latch set and all others not. -/
def unwiredRecord (m : Machine) : SaveState := { m.capture with input := 0x80 }

theorem puts_unwiredRecord (h : m.Reachable chips) :
    (Operation.load m.unwiredRecord.toBytes).Puts m.unwiredRecord :=
  .load (SaveState.ofBytes_toBytes h.regular.validate)

/-- The machine after it has loaded that record. -/
def unwired (m : Machine) : Machine := (m.perform (.load m.unwiredRecord.toBytes)).2

theorem reachable_unwired (h : m.Reachable chips) : m.unwired.Reachable chips := h.perform _

theorem latch_unwired (h : m.Reachable chips) : m.unwired.board.latch = ⟨0x80⟩ :=
  latch_perform_of_puts (puts_unwiredRecord h)

theorem cpu_unwired (h : m.Built chips) : m.unwired.circuit.cpu = .atReset resetVector := by
  have read : SaveState.ofBytes m.unwiredRecord.toBytes = .ok m.unwiredRecord :=
    SaveState.ofBytes_toBytes (Reachable.built h).regular.validate
  have kept : m.unwired.circuit.cpu = m.circuit.cpu := by
    rw [unwired, perform, load_of_ok read]
    exact Cpu.ofSnapshot_snapshot _
  obtain ⟨program, settings, hp, rfl⟩ := h.exists_fresh
  exact kept

/-- **A latch that is not as wired is reached**, and a program reads it at port 1: a machine whose
program is IN 1 loads bytes that hold such a latch. -/
theorem unwired_reached :
    (coded polling).unwired.Reachable (codeChips polling) ∧
      ¬(coded polling).unwired.board.latch.Wired ∧
      ⟨.input, 0x0101, 0x80⟩ ∈ (coded polling).unwired.accesses (.stepCycles 10) := by
  have built := built_coded polling
  have reached := reachable_unwired (.built built)
  have latch := latch_unwired (.built built)
  have read := accesses_polling reached (cpu_unwired built)
  rw [latch] at read ⊢
  exact ⟨reached, by decide, read⟩

theorem performAll_unwired (m : Machine) :
    (m.performAll [.load m.unwiredRecord.toBytes]).2 = m.unwired :=
  m.performAll_singleton _

theorem polling_unwired :
    (coded polling).Built (codeChips polling) ∧
      ¬((coded polling).performAll [.load (coded polling).unwiredRecord.toBytes]).2.board.latch.Wired ∧
      ∃ x ∈ ((coded polling).performAll
          [.load (coded polling).unwiredRecord.toBytes]).2.accesses (.stepCycles 10),
        x.kind = .input ∧ Board.portNumber x.address = 1 ∧ x.value = 0x80 := by
  have built := built_coded polling
  obtain ⟨unwired, port⟩ := unwired_iff_put built [.load (coded polling).unwiredRecord.toBytes]
  have read := accesses_polling (reachable_unwired (.built built)) (cpu_unwired built)
  rw [performAll_unwired] at unwired port ⊢
  refine ⟨built, unwired.2 ?_, _, read, rfl, rfl, ?_⟩
  · exact ⟨[], _, [], (coded polling).unwiredRecord, rfl, puts_unwiredRecord (.built built),
      by decide, fun _ h => absurd h List.not_mem_nil⟩
  · rw [port _ _ read rfl rfl, latch_unwired (.built built)]

end Machine

end Cabinet
