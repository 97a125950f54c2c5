import Cabinet.Machine.Record
import Cabinet.Proofs.Cpu.Pending
import Cabinet.Proofs.Cpu.Simulation
import Cabinet.Proofs.Memory.Layout
import Cabinet.Proofs.Rom.Assembly
import Cabinet.Proofs.SaveState.RoundTrip
/-!
# The machines that can be reached

A machine is built from four chips, by themselves or out of a ROM set, and then operated. What holds of
every machine that is reached in this way is found once, as what one operation keeps
(`Machine.Sound.perform`):

* memory is the two banks of the machine, and the program in it is that of the chips;
* the pending cycles are none or those of one interrupt;
* the checksums are those of the chips.
-/

namespace Cabinet

/-! ### Operating -/

/-- What an owner does with a machine. -/
inductive Operation where
  | stepFrame
  | stepCycles (budget : UInt32)
  | reset
  | setInput (id : UInt8) (pressed : Bool)
  | setInputBits (bits : UInt8)
  | setDips (dips : Dips)
  | setSpeed (speed : Speed)
  | setUncapped (uncapped : Bool)
  | write (a : UInt16) (v : UInt8)
  | updatePixels
  | setMap (map : Option AddressMap)
  | load (b : ByteArray)
  | restore (s : SaveState)

/-- What the owner gets back. -/
inductive Answer where
  /-- Nothing. -/
  | done
  /-- The cycles that it took. -/
  | cycles (n : UInt32)
  /-- The reason for which nothing was done. -/
  | refused (e : SaveStateError)
deriving DecidableEq, Inhabited

namespace Machine

/-- The answer for a machine that is to be put in the place of `m`, unless there is a reason not to. -/
def settle (m : Machine) : Except SaveStateError Machine → Answer × Machine
  | .ok n => (.done, n)
  | .error e => (.refused e, m)

/-- Does one operation. -/
def perform (m : Machine) : Operation → Answer × Machine
  | .stepFrame => (.cycles m.stepFrame.1, m.stepFrame.2)
  | .stepCycles budget => (.cycles (m.stepCycles budget).1, (m.stepCycles budget).2)
  | .reset => (.done, m.reset)
  | .setInput id pressed => (.done, m.setInput id pressed)
  | .setInputBits bits => (.done, m.setInputBits bits)
  | .setDips dips => (.done, m.setDips dips)
  | .setSpeed speed => (.done, m.setSpeed speed)
  | .setUncapped uncapped => (.done, m.setUncapped uncapped)
  | .write a v => (.done, m.write a v)
  | .updatePixels => (.done, m.updatePixels)
  | .setMap map => (.done, m.setMap map)
  | .load b => m.settle (m.load b)
  | .restore s => m.settle (m.restore s)

/-- Does one operation after the other. -/
def performAll (m : Machine) : List Operation → List Answer × Machine
  | [] => ([], m)
  | op :: ops =>
    let rest := (m.perform op).2.performAll ops
    ((m.perform op).1 :: rest.1, rest.2)

/-! ### Building -/

/-- A machine that has just been built from the chips. -/
inductive Built (chips : Chips) : Machine → Prop where
  /-- From the chips by themselves. -/
  | ofChips (settings : Settings) {m : Machine} (h : ofChips chips settings = .ok m) : Built chips m
  /-- From a ROM set that holds them. -/
  | ofRomSet {set : RomSet} (hs : set.Holds chips) (settings : Settings) {m : Machine}
      (h : ofRomSet set settings = .ok m) : Built chips m
  /-- From a ROM set that holds them, if they are the known ones. -/
  | ofRomSetStrict {set : RomSet} (hs : set.Holds chips) (settings : Settings) {m : Machine}
      (h : ofRomSetStrict set settings = .ok m) : Built chips m

/-- A machine that was built from the chips and then operated. -/
inductive Reachable (chips : Chips) : Machine → Prop where
  /-- It has just been built. -/
  | built {m : Machine} (h : Built chips m) : Reachable chips m
  /-- One more operation is done. -/
  | perform {m : Machine} (h : Reachable chips m) (op : Operation) : Reachable chips (m.perform op).2

theorem performAll_singleton (m : Machine) (op : Operation) :
    (m.performAll [op]).2 = (m.perform op).2 := rfl

theorem performAll_append (m : Machine) (ops ops' : List Operation) :
    (m.performAll (ops ++ ops')).2 = ((m.performAll ops).2.performAll ops').2 := by
  induction ops generalizing m with
  | nil => rfl
  | cons op ops ih => exact ih _

theorem Reachable.performAll {chips : Chips} {m : Machine} (h : m.Reachable chips)
    (ops : List Operation) : (m.performAll ops).2.Reachable chips := by
  induction ops generalizing m with
  | nil => exact h
  | cons op ops ih => exact ih (h.perform op)

/-- The machine with a program in memory, before anything has happened. -/
def fresh (rom : Block) (checksums : List UInt32) (settings : Settings) : Machine where
  circuit := {
    cpu := .atReset resetVector
    bus := { memory := .ofBlocks rom .zeros, dips := settings.dips } }
  pixels := .blank
  frames := 0
  cycles := 0
  pacing := settings.pacing
  checksums := checksums
  map := AddressMap.ofChecksums? checksums

theorem ofProgram_eq (program : RomImage) (h : program.data.size = 0x2000) (settings : Settings) :
    ofProgram program settings =
      .ok (fresh (patched ⟨program.data, h⟩) program.checksums settings) := by
  unfold ofProgram
  rw [memoryOf_eq ⟨program.data, h⟩]
  rfl

/-- However it is built, a new machine is one with the program of its chips. -/
theorem Built.exists_program {chips : Chips} {m : Machine} (h : m.Built chips) :
    ∃ program settings, programRom.loadImages chips.toList = .ok program ∧
      ofProgram program settings = .ok m := by
  cases h with
  | ofChips settings h =>
    obtain ⟨program, hp, hm⟩ := bind_eq_ok_iff.1 h
    exact ⟨program, settings, mapError_eq_ok_iff.1 hp, hm⟩
  | ofRomSet hs settings h =>
    obtain ⟨program, hp, hm⟩ := bind_eq_ok_iff.1 h
    rw [loadImages_eq_load_of_holds hs]
    exact ⟨program, settings, mapError_eq_ok_iff.1 hp, hm⟩
  | ofRomSetStrict hs settings h =>
    obtain ⟨program, hp, hm⟩ := bind_eq_ok_iff.1 h
    rw [loadImages_eq_load_of_holds hs]
    exact ⟨program, settings, (RomRegion.loadStrict_eq_ok_iff.1 (mapError_eq_ok_iff.1 hp)).1, hm⟩

theorem Built.exists_fresh {chips : Chips} {m : Machine} (h : m.Built chips) :
    ∃ program settings, ∃ hp : programRom.loadImages chips.toList = .ok program,
      m = fresh (patched ⟨program.data, size_of_loadImages hp⟩) program.checksums settings := by
  obtain ⟨program, settings, hp, hm⟩ := h.exists_program
  rw [ofProgram_eq _ (size_of_loadImages hp)] at hm
  cases hm
  exact ⟨program, settings, hp, rfl⟩

theorem Built.cpu_eq {chips : Chips} {m : Machine} (h : m.Built chips) :
    m.circuit.cpu = .atReset resetVector := by
  obtain ⟨program, settings, hp, rfl⟩ := h.exists_fresh
  rfl

/-! ### What every operation keeps -/

/-- The program in memory is `rom`, the checksums are those given, and the pending cycles are what an
interrupt leaves. -/
structure Sound (rom : Block) (checksums : List UInt32) (m : Machine) : Prop where
  /-- Memory is the program and a bank that can be written. -/
  memory : ∃ ram, m.circuit.bus.memory = .ofBlocks rom ram
  /-- None, or those of one interrupt. -/
  pending : m.circuit.cpu.pending = 0 ∨ m.circuit.cpu.pending = interruptCycles
  /-- The checksums are never changed. -/
  checksums_eq : m.checksums = checksums

variable {rom : Block} {checksums : List UInt32} {m n : Machine}

/-- **Below 0x2000 the program is read.** -/
theorem read_of_memory (h : ∃ ram, m.circuit.bus.memory = .ofBlocks rom ram) {a : UInt16}
    (ha : a.toNat < 0x2000) : m.read a = Bytes.get rom.val a.toNat := by
  obtain ⟨ram, hm⟩ := h
  rw [read, board, hm, AddressSpace.read_ofBlocks, if_pos ha]

theorem sound_fresh (settings : Settings) : (fresh rom checksums settings).Sound rom checksums :=
  ⟨⟨.zeros, rfl⟩, .inl rfl, rfl⟩

/-- Every access of the processor keeps the program. -/
theorem keeps_program (rom : Block) :
    Bus.Keeps fun board : Board => ∃ ram, board.memory = .ofBlocks rom ram where
  read _ _ h := h
  write a x := by
    rintro board ⟨ram, h⟩
    obtain ⟨ram', hw⟩ := AddressSpace.write_ofBlocks rom ram a x
    refine ⟨ram', ?_⟩
    show board.memory.write a x = _
    rw [h, hw]
  input _ _ h := h
  output a x := by
    rintro board ⟨ram, h⟩
    refine ⟨ram, ?_⟩
    show (board.output a x).memory = _
    unfold Board.output
    split <;> exact h

/-- A frame of a processor, on any bus. -/
def frame {σ : Type} [Bus σ] (w : Circuit σ) : Circuit σ :=
  ((((w.execute halfFrame).2.interrupt midScreen).2.execute halfFrame).2.interrupt endScreen).2

theorem circuit_stepFrame (m : Machine) : m.stepFrame.2.circuit = frame m.circuit := rfl

theorem cycles_stepFrame (m : Machine) : m.stepFrame.1 =
    addCycles (m.circuit.execute halfFrame).1
      (((m.circuit.execute halfFrame).2.interrupt midScreen).2.execute halfFrame).1 := rfl

theorem circuit_updatePixels (m : Machine) : m.updatePixels.circuit = m.circuit := by
  unfold Machine.updatePixels
  rfl

/-- **A frame goes alike** on buses that answer alike. -/
theorem frame_alike {σ τ : Type} [Bus σ] [Bus τ] {R : σ → τ → Prop} (hR : Bus.Simulation R)
    {w : Circuit σ} {v : Circuit τ} (h : Circuit.Alike R w v) :
    Circuit.Alike R (frame w) (frame v) := by
  have first := (h.execute hR halfFrame).alike
  have mid := (first.interrupt hR midScreen).alike
  have second := (mid.execute hR halfFrame).alike
  exact (second.interrupt hR endScreen).alike

/-- What every access keeps, a frame keeps. -/
theorem frame_keeps {σ : Type} [Bus σ] {P : σ → Prop} (keeps : Bus.Keeps P) {w : Circuit σ}
    (h : P w.bus) : P (frame w).bus :=
  (frame_alike keeps.simulation ⟨w.cpu, rfl, h⟩).bus.2

theorem stepFrame_keeps {P : Board → Prop} (keeps : Bus.Keeps P) (h : P m.circuit.bus) :
    P m.stepFrame.2.circuit.bus :=
  frame_keeps keeps h

theorem settled_stepFrame (m : Machine) : m.stepFrame.2.circuit.Settled := by
  rw [circuit_stepFrame]
  exact Circuit.settled_interrupt (Circuit.pending_execute ..) endScreen

theorem Sound.stepFrame (h : m.Sound rom checksums) : m.stepFrame.2.Sound rom checksums :=
  ⟨stepFrame_keeps (keeps_program rom) h.memory, m.settled_stepFrame.pending, h.checksums_eq⟩

theorem Sound.stepCycles (h : m.Sound rom checksums) (budget : UInt32) :
    (m.stepCycles budget).2.Sound rom checksums :=
  ⟨Circuit.execute_keeps (keeps_program rom) h.memory budget,
    (Circuit.settled_execute budget m.circuit).pending, h.checksums_eq⟩

theorem Sound.reset (h : m.Sound rom checksums) : m.reset.Sound rom checksums := by
  obtain ⟨ram, hm⟩ := h.memory
  refine ⟨⟨ram.overwrite 0 (Bytes.zeros Board.ramSize), ?_⟩, .inl rfl, h.checksums_eq⟩
  show m.circuit.bus.memory.overwrite Board.ramBase 0 _ = _
  rw [hm, AddressSpace.overwrite_ramBase_ofBlocks]

theorem Sound.write (h : m.Sound rom checksums) (a : UInt16) (x : UInt8) :
    (m.write a x).Sound rom checksums :=
  ⟨(keeps_program rom).write a x h.memory, h.pending, h.checksums_eq⟩

theorem Sound.setInput (h : m.Sound rom checksums) (id : UInt8) (pressed : Bool) :
    (m.setInput id pressed).Sound rom checksums := by
  unfold Machine.setInput
  split
  · exact ⟨h.memory, h.pending, h.checksums_eq⟩
  · exact h

theorem Sound.updatePixels (h : m.Sound rom checksums) : m.updatePixels.Sound rom checksums := by
  unfold Machine.updatePixels
  exact ⟨h.memory, h.pending, h.checksums_eq⟩

/-- The memory after a record has been put back: the program as before, and the bytes of the record. -/
theorem Sound.memory_put (h : m.Sound rom checksums) {s : SaveState} (hs : s.validate = .ok ()) :
    (m.put s (SaveState.size_pixels_of_validate hs)).circuit.bus.memory =
      .ofBlocks rom ⟨s.ram, SaveState.size_ram_of_validate hs⟩ := by
  obtain ⟨ram, hm⟩ := h.memory
  show m.circuit.bus.memory.overwrite Board.ramBase 0 s.ram = _
  rw [hm, AddressSpace.overwrite_ramBase_ofBlocks]
  exact congrArg _ (Block.overwrite_zero ram ⟨s.ram, SaveState.size_ram_of_validate hs⟩)

theorem Sound.put (h : m.Sound rom checksums) {s : SaveState} (hs : s.validate = .ok ()) :
    (m.put s (SaveState.size_pixels_of_validate hs)).Sound rom checksums :=
  ⟨⟨_, h.memory_put hs⟩, (SaveState.validate_eq_ok_iff.1 hs).2, h.checksums_eq⟩

theorem Sound.restore (h : m.Sound rom checksums) {s : SaveState} (hr : m.restore s = .ok n) :
    n.Sound rom checksums := by
  cases hv : s.validate with
  | error e =>
    rw [restore_of_error hv] at hr
    cases hr
  | ok u =>
    rw [restore_of_ok hv] at hr
    cases hr
    exact h.put hv

theorem Sound.load (h : m.Sound rom checksums) {b : ByteArray} (hl : m.load b = .ok n) :
    n.Sound rom checksums := by
  obtain ⟨s, -, hr⟩ := bind_eq_ok_iff.1 hl
  exact h.restore hr

theorem Sound.settle (h : m.Sound rom checksums) {x : Except SaveStateError Machine}
    (hx : ∀ n, x = .ok n → n.Sound rom checksums) : (m.settle x).2.Sound rom checksums := by
  cases x with
  | error e => exact h
  | ok n => exact hx n rfl

/-- **Every operation keeps a machine sound**, with the same program and the same checksums. -/
theorem Sound.perform (h : m.Sound rom checksums) (op : Operation) :
    (m.perform op).2.Sound rom checksums := by
  cases op with
  | stepFrame => exact h.stepFrame
  | stepCycles budget => exact h.stepCycles budget
  | reset => exact h.reset
  | setInput id pressed => exact h.setInput id pressed
  | write a v => exact h.write a v
  | updatePixels => exact h.updatePixels
  | setInputBits | setDips | setSpeed | setUncapped | setMap =>
    exact ⟨h.memory, h.pending, h.checksums_eq⟩
  | load b => exact h.settle fun n => h.load
  | restore s => exact h.settle fun n => h.restore

theorem Built.sound {chips : Chips} {program : RomImage}
    (hp : programRom.loadImages chips.toList = .ok program) (h : m.Built chips) :
    m.Sound (patched ⟨program.data, size_of_loadImages hp⟩) program.checksums := by
  obtain ⟨program', settings, hl, rfl⟩ := h.exists_fresh
  cases hp.symm.trans hl
  exact sound_fresh settings

/-- **A machine that is reached is sound**, with the program of its chips. -/
theorem Reachable.sound {chips : Chips} {program : RomImage}
    (hp : programRom.loadImages chips.toList = .ok program) (h : m.Reachable chips) :
    m.Sound (patched ⟨program.data, size_of_loadImages hp⟩) program.checksums := by
  induction h with
  | built h => exact h.sound hp
  | perform h op ih => exact ih.perform op

/-- Chips of which a machine is reached have a program. -/
theorem Reachable.exists_program {chips : Chips} (h : m.Reachable chips) :
    ∃ program, programRom.loadImages chips.toList = .ok program := by
  induction h with
  | built h =>
    obtain ⟨program, -, hp, -⟩ := h.exists_program
    exact ⟨program, hp⟩
  | perform h op ih => exact ih

/-- The machines that are reached from the same chips are sound, all with one program. -/
theorem exists_sound (chips : Chips) :
    ∃ rom checksums, ∀ {m : Machine}, m.Reachable chips → m.Sound rom checksums := by
  cases hp : programRom.loadImages chips.toList with
  | error e =>
    refine ⟨.zeros, [], fun h => ?_⟩
    obtain ⟨program, hl⟩ := h.exists_program
    rw [hp] at hl
    cases hl
  | ok program => exact ⟨_, _, Reachable.sound hp⟩

/-! ### A machine to begin with -/

/-- Chips of the right length give a machine. -/
theorem exists_ofChips {chips : Chips} (h : ∀ chip ∈ chips.toList, chip.size = 0x800)
    (settings : Settings) : ∃ m, ofChips chips settings = .ok m := by
  obtain ⟨program, hp⟩ := (exists_program_iff chips).2 h
  have built := ofProgram_eq program (size_of_loadImages hp) settings
  exact ⟨_, bind_eq_ok_iff.2 ⟨program, mapError_eq_ok_iff.2 hp, built⟩⟩

/-- Four chips of zeros: a program that does nothing. -/
def idleChips : Chips :=
  ⟨Bytes.zeros 0x800, Bytes.zeros 0x800, Bytes.zeros 0x800, Bytes.zeros 0x800⟩

theorem size_of_mem_idleChips : ∀ chip ∈ idleChips.toList, chip.size = 0x800 := by
  simp [idleChips, Chips.toList]

/-- The machine with these chips. -/
def idle : Machine := resultOf (exists_ofChips size_of_mem_idleChips .standard)

theorem reachable_idle : idle.Reachable idleChips :=
  .built (.ofChips .standard (eq_ok_resultOf _))

/-- Chips with code where the processor starts. -/
def codeChips (code : List UInt8) : Chips :=
  { idleChips with h := Bytes.overwrite (Bytes.zeros 0x800) 1 (Bytes.ofList code) }

theorem size_of_mem_codeChips (code : List UInt8) :
    ∀ chip ∈ (codeChips code).toList, chip.size = 0x800 := by
  simp [codeChips, idleChips, Chips.toList]

theorem byteAt_codeChips {code : List UInt8} (fits : 1 + code.length ≤ 0x800) {k : Nat}
    (hk : k < code.length) : (codeChips code).byteAt (1 + k) = code[k] := by
  have chip : (codeChips code).toList.getD ((1 + k) / 0x800) .empty =
      Bytes.overwrite (Bytes.zeros 0x800) 1 (Bytes.ofList code) := by
    rw [show (1 + k) / 0x800 = 0 by omega]
    rfl
  have place : (1 + k) % 0x800 = 1 + k := by omega
  unfold Chips.byteAt
  rw [chip, place, Bytes.get_overwrite _ _ _ (by simpa using fits), if_pos (by simp; omega),
    Nat.add_sub_cancel_left, Bytes.get_ofList, List.getD_eq_getElem?_getD,
    List.getElem?_eq_getElem hk, Option.getD_some]

/-- The machine with these chips. -/
def coded (code : List UInt8) : Machine :=
  resultOf (exists_ofChips (size_of_mem_codeChips code) .standard)

theorem built_coded (code : List UInt8) : (coded code).Built (codeChips code) :=
  .ofChips .standard (eq_ok_resultOf _)

end Machine

end Cabinet
