import Cabinet.Proofs.Cpu.Fetch
import Cabinet.Proofs.Machine.SaveLoad
/-!
# What is true of a machine at all times

Whatever is done with a machine, records and bytes of any origin that it has taken included, it stays
regular (`Machine.Regular`): the numbers in its record are ones that the record may hold, memory is
the two banks, and the program is the chips behind a jump. So a machine can always be saved.

The pending cycles tell more as long as no record is put back. They are those of the interrupt at the
end of a frame, and an interrupt that is accepted wakes the processor and disables further ones. An
operation leaves the processor either without pending cycles or as that interrupt has left it
(`Circuit.Settled`), which is what carries the induction over a run.
-/

namespace Cabinet

theorem Flags.toByte_and_fixed (f : Flags) : f.toByte &&& 0x2A = 0x02 := by
  rcases f with ⟨_ | _, _ | _, _ | _, _ | _, _ | _⟩ <;> rfl

/-- The operation puts a recorded state back. -/
def Operation.putsBack : Operation → Bool
  | .load _ | .restore _ => true
  | _ => false

namespace Machine

variable {rom : Block} {checksums : List UInt32} {chips : Chips} {m : Machine}

/-! ### Interrupts that wait to be charged -/

/-- **An operation leaves a settled processor settled**, if it puts no record back. -/
theorem settled_perform (h : m.circuit.Settled) {op : Operation} (hop : op.putsBack = false) :
    (m.perform op).2.circuit.Settled := by
  cases op with
  | stepFrame => exact m.settled_stepFrame
  | stepCycles budget => exact Circuit.settled_execute budget m.circuit
  | reset => exact .inl rfl
  | setInput id pressed =>
    show (m.setInput id pressed).circuit.Settled
    unfold setInput
    split
    · exact h
    · exact h
  | updatePixels =>
    show m.updatePixels.circuit.Settled
    rw [circuit_updatePixels]
    exact h
  | setInputBits | setDips | setSpeed | setUncapped | write | setMap => exact h
  | load | restore => cases hop

theorem settled_performAll (h : m.circuit.Settled) {ops : List Operation}
    (hops : ∀ op ∈ ops, op.putsBack = false) : (m.performAll ops).2.circuit.Settled := by
  induction ops generalizing m with
  | nil => exact h
  | cons op ops ih =>
    exact ih (settled_perform h (hops op (List.mem_cons_self ..)))
      fun op hop => hops op (List.mem_cons_of_mem _ hop)

theorem Built.settled (h : m.Built chips) : m.circuit.Settled := by
  obtain ⟨program, settings, hp, rfl⟩ := h.exists_fresh
  exact .inl rfl

/-! ### Regular machines -/

/-- What is true of every machine that is reached from the chips. -/
structure Regular (chips : Chips) (m : Machine) : Prop where
  /-- Of the flag byte bit 1 is set, and bits 3 and 5 are not. -/
  flags : m.capture.cpu.f &&& 0x2A = 0x02
  /-- The shifter shifts by less than a byte. -/
  offset_le : m.capture.shiftOffset ≤ 7
  /-- No cycles are pending, or those of one interrupt. -/
  pending : m.capture.cpu.pending = 0 ∨ m.capture.cpu.pending = 11
  /-- The picture has all its points. -/
  size_pixels : m.capture.pixels.size = 57344
  /-- Memory is a bank that is read only and one that can be written. -/
  banks : m.board.memory.banks.map (fun b => (b.base, b.size, b.readOnly)) =
    [(0x0000, 8192, true), (0x2000, 8192, false)]
  /-- The program begins with a jump. -/
  read_zero : m.read 0x0000 = 0xC3
  /-- All else of the program is that of the chips. -/
  read_program : ∀ a : UInt16, a ≠ 0x0000 → a.toNat < 0x2000 → m.read a = chips.byteAt a.toNat
  /-- The state can be recorded. -/
  validate : m.capture.validate = .ok ()

theorem Sound.banks_eq (h : m.Sound rom checksums) :
    m.board.memory.banks.map (fun b => (b.base, b.size, b.readOnly)) =
      [(0x0000, 8192, true), (0x2000, 8192, false)] := by
  obtain ⟨ram, hm⟩ := h.memory
  rw [board, hm]
  show [((0x0000 : UInt16), rom.val.size, true), (0x2000, ram.val.size, false)] = _
  rw [rom.property, ram.property]

theorem Reachable.regular (h : m.Reachable chips) : m.Regular chips := by
  obtain ⟨program, hp⟩ := h.exists_program
  have sound := h.sound hp
  refine
    { flags := m.circuit.cpu.flags.toByte_and_fixed
      offset_le := ?offset
      pending := sound.pending
      size_pixels := m.pixels.size_toArray
      banks := sound.banks_eq
      read_zero := ?first
      read_program := ?program
      validate := sound.validate_capture }
  case offset =>
    have lt := m.board.shifter.offset.isLt
    rw [UInt8.le_iff_toNat_le]
    show m.board.shifter.offset.val % 256 ≤ 7
    omega
  case first =>
    rw [read_of_memory sound.memory (by decide), get_patched]
    rfl
  case program =>
    intro a ha lt
    have nonzero : a.toNat ≠ 0 := fun h0 => ha (UInt16.toNat_inj.1 h0)
    rw [read_of_memory sound.memory lt, get_patched, if_neg nonzero]
    exact get_loadImages hp lt

/-- **A machine is regular at all times**, and as long as no record has been put back, an interrupt
waits to be charged only in a processor that it has woken and that is closed to further ones. -/
theorem regular_at_all_times (chips : Chips) :
    (∀ m : Machine, m.Reachable chips → m.Regular chips) ∧
      ∀ m : Machine, m.Built chips → ∀ ops : List Operation, (∀ op ∈ ops, op.putsBack = false) →
        (m.performAll ops).2.circuit.cpu.pending = 11 →
          (m.performAll ops).2.circuit.cpu.halted = false ∧
            (m.performAll ops).2.circuit.cpu.inte = false := by
  refine ⟨fun m h => h.regular, fun m h ops hops eleven => ?_⟩
  obtain none | ⟨-, awake, closed⟩ := settled_performAll h.settled hops
  · rw [none] at eleven
    exact absurd eleven (by decide)
  · exact ⟨awake, closed⟩

/-- The code in the chips is read from where the processor starts. -/
theorem Reachable.read_code {code : List UInt8} (h : m.Reachable (codeChips code))
    (fits : 1 + code.length ≤ 0x800) {k : Nat} (hk : k < code.length) :
    m.read (UInt16.ofNat (1 + k)) = code[k] := by
  have place : (UInt16.ofNat (1 + k)).toNat = 1 + k := by
    rw [UInt16.toNat_ofNat']
    omega
  have nonzero : UInt16.ofNat (1 + k) ≠ 0x0000 := by
    intro zero
    rw [zero] at place
    exact absurd place (by simp; omega)
  rw [h.regular.read_program _ nonzero (by omega), place, byteAt_codeChips fits hk]

end Machine

/-! ### A machine with an interrupt that waits to be charged -/

namespace Circuit

variable {σ : Type} [Bus σ] {w : Circuit σ} {s : σ} {budget used : UInt32}

theorem run_eq_of_hlt (running : w.cpu.halted = false) (lt : used < budget)
    (h : Bus.read w.cpu.pc w.bus = (0x76, s)) :
    run budget used w =
      (addCycles used 7, ⟨{ w.cpu with pc := w.cpu.pc + 1, halted := true }, s⟩) := by
  have decoded : Instruction.ofByte 0x76 = .hlt := Instruction.ofByte_eq_decode _
  rw [run_of_lt lt running, stepRunning_of_read h decoded rfl,
    run_of_not fun hw => Bool.noConfusion hw.2]
  rfl

theorem run_hlt (running : w.cpu.halted = false) (lt : used < budget)
    (h : Bus.read w.cpu.pc w.bus = (0x76, s)) :
    (run budget used w).2 = ⟨{ w.cpu with pc := w.cpu.pc + 1, halted := true }, s⟩ :=
  congrArg Prod.snd (run_eq_of_hlt running lt h)

theorem run_ei (running : w.cpu.halted = false) (lt : used < budget)
    (h : Bus.read w.cpu.pc w.bus = (0xFB, s)) :
    run budget used w =
      run budget (addCycles used 4) ⟨{ w.cpu with pc := w.cpu.pc + 1, inte := true }, s⟩ := by
  have decoded : Instruction.ofByte 0xFB = .ei := Instruction.ofByte_eq_decode _
  rw [run_of_lt lt running, stepRunning_of_read h decoded rfl]
  rfl

/-- A burst of two instructions, EI and HLT. -/
theorem execute_ei_hlt {s' : σ} (held : UInt32) (pending : w.cpu.pending = held)
    (running : w.cpu.halted = false) (lt : held < budget) (lt' : addCycles held 4 < budget)
    (ei : Bus.read w.cpu.pc w.bus = (0xFB, s)) (hlt : Bus.read (w.cpu.pc + 1) s = (0x76, s')) :
    w.execute budget = (addCycles (addCycles held 4) 7,
      ⟨{ w.cpu with pc := w.cpu.pc + 1 + 1, inte := true, halted := true, pending := 0 }, s'⟩) := by
  rw [execute_of_running running, pending]
  refine (run_ei (w := w.mapCpu ({ · with pending := 0 })) running lt ei).trans ?_
  exact run_eq_of_hlt running lt' hlt

end Circuit

namespace Machine

variable {m : Machine} {rom : Block}

/-- A byte of the program is fetched from any board with this program. -/
theorem busRead_of_memory (program : ∃ ram, m.circuit.bus.memory = .ofBlocks rom ram) {a : UInt16}
    {byte : UInt8} (read : m.read a = byte) (low : a.toNat < 0x2000) (s : Board)
    (same : ∃ ram, s.memory = .ofBlocks rom ram) : Bus.read a s = (byte, s) := by
  obtain ⟨ram, hs⟩ := same
  subst read
  show (s.memory.read a, s) = _
  rw [read_of_memory program low, hs, AddressSpace.read_ofBlocks, if_pos low]

/-- A processor that has halted early on is woken in the middle of the screen. -/
theorem exists_interrupt_midScreen {s : Board} (program : ∃ ram, s.memory = .ofBlocks rom ram)
    (pc : UInt16) : ∃ board : Board, (∃ ram, board.memory = .ofBlocks rom ram) ∧
      (Circuit.mk { Cpu.atReset pc with inte := true, halted := true } s |>.interrupt midScreen).2 =
        ⟨{ Cpu.atReset 0x0008 with sp := 0xFFFE, pending := 11 }, board⟩ := by
  have keeps := keeps_program rom
  exact ⟨_, keeps.write _ _ (keeps.write _ _ program), rfl⟩

/-- A program that halts twice, the second time in the middle of the screen and open to interrupts:
HLT at 0001; EI, HLT at 0008. -/
def dozing : List UInt8 := [0x76, 0x00, 0x00, 0x00, 0x00, 0x00, 0x00, 0xFB, 0x76]

theorem read_dozing (h : m.Reachable (codeChips dozing)) :
    m.read 0x0001 = 0x76 ∧ m.read 0x0008 = 0xFB ∧ m.read 0x0009 = 0x76 :=
  ⟨h.read_code (k := 0) (by decide) (by decide), h.read_code (k := 7) (by decide) (by decide),
    h.read_code (k := 8) (by decide) (by decide)⟩

/-- The first frame of this program. It halts, the interrupt in the middle of the screen wakes it, it
opens up to interrupts and halts again, and the interrupt at the end of the screen wakes it. -/
theorem pending_dozing (h : m.Reachable (codeChips dozing)) :
    (m.performAll [.reset, .stepFrame]).2.circuit.cpu.pending = 11 := by
  obtain ⟨rom, checksums, sound⟩ := exists_sound (codeChips dozing)
  have start : m.reset.Reachable (codeChips dozing) := h.perform .reset
  have program := (sound start).memory
  obtain ⟨read1, read8, read9⟩ := read_dozing start
  have hlt := busRead_of_memory program read1 (by decide)
  have ei := busRead_of_memory program read8 (by decide)
  have hlt' := busRead_of_memory program read9 (by decide)
  have first : (m.reset.circuit.execute halfFrame).2 =
      ⟨{ Cpu.atReset 0x0002 with inte := true, halted := true }, m.reset.circuit.bus⟩ := by
    rw [Circuit.execute_of_running rfl]
    exact Circuit.run_hlt rfl (show (0 : UInt32) < 17066 by decide) (hlt _ program)
  obtain ⟨board, program', mid⟩ := exists_interrupt_midScreen program 0x0002
  have second : ((m.reset.circuit.execute halfFrame).2.interrupt midScreen).2.execute halfFrame =
      (22, ⟨{ Cpu.atReset 0x000A with sp := 0xFFFE, inte := true, halted := true }, board⟩) := by
    rw [first, mid]
    exact Circuit.execute_ei_hlt 11 rfl rfl (by decide) (by decide) (ei _ program') (hlt' _ program')
  show m.reset.stepFrame.2.circuit.cpu.pending = 11
  rw [circuit_stepFrame, frame, second]
  rfl

theorem dozing_woken :
    (coded dozing).Built (codeChips dozing) ∧
      (coded dozing).Regular (codeChips dozing) ∧
      (∀ op ∈ [Operation.reset, .stepFrame], op.putsBack = false) ∧
      ((coded dozing).performAll [.reset, .stepFrame]).2.circuit.cpu.pending = 11 ∧
      ((coded dozing).performAll [.reset, .stepFrame]).2.circuit.cpu.halted = false ∧
      ((coded dozing).performAll [.reset, .stepFrame]).2.circuit.cpu.inte = false := by
  have built := built_coded dozing
  have eleven := pending_dozing (.built built)
  have kept : ∀ op ∈ [Operation.reset, .stepFrame], op.putsBack = false := by
    simp [Operation.putsBack]
  obtain ⟨regular, awake⟩ := regular_at_all_times (codeChips dozing)
  exact ⟨built, regular _ (.built built), kept, eleven, awake _ built _ kept eleven⟩

end Machine

end Cabinet
