import Cabinet.Proofs.Machine.Reachable
/-!
# Restoring is all or nothing

A machine that is reached takes a record as a whole or not at all. The record replaces the state piece
by piece (`Machine.commit`), and two of the pieces are copied over runs of bytes that have to be as
long; a copy of another length would stop half way. The check that comes first leaves no such copy, so
a record that passes is put back completely (`Machine.Sound.applyTo_restoreInPlace`), and one that does
not pass changes nothing.
-/

namespace Cabinet

/-! ### What a machine makes of a record -/

/-- The record that a machine gives which took `s`: of the flag byte the flags, of the offset of the
shifter the three low bits. -/
def SaveState.normalised (s : SaveState) : SaveState :=
  { s with cpu := { s.cpu with f := (s.cpu.f &&& 0xD5) ||| 0x02 }, shiftOffset := s.shiftOffset &&& 7 }

theorem Shifter.ofNat_offsetOf (v : UInt8) : UInt8.ofNat (offsetOf v) = v &&& 7 := by
  rw [← UInt8.toNat_inj, UInt8.toNat_and]
  show v.toNat % 8 % 256 = v.toNat &&& (2 ^ 3 - 1)
  rw [Nat.and_two_pow_sub_one_eq_mod]
  omega

namespace Machine

variable {rom : Block} {checksums : List UInt32} {m n : Machine}

theorem ram_of_memory {ram : Block} (h : m.circuit.bus.memory = .ofBlocks rom ram) :
    m.ram = ram.val := by
  rw [Machine.ram, board, h, AddressSpace.bank?_ofBlocks]
  rfl

/-- **The state after a record has been put back is the record**, normalised. -/
theorem Sound.capture_put (h : m.Sound rom checksums) {s : SaveState} (hs : s.validate = .ok ()) :
    (m.put s (SaveState.size_pixels_of_validate hs)).capture = s.normalised := by
  have ram := ram_of_memory (h.memory_put hs)
  have cpu := Cpu.snapshot_ofSnapshot s.cpu
  have offset := Shifter.ofNat_offsetOf s.shiftOffset
  rw [capture, ram]
  unfold SaveState.normalised
  rw [← cpu, ← offset]
  rfl

/-! ### Piece by piece -/

/-- Why a program that changes a machine stops before its end. -/
inductive Fault where
  /-- The record is refused. -/
  | refused (e : SaveStateError)
  /-- Something is copied over a run of another length. -/
  | copyLength (target source : Nat)
deriving DecidableEq, Inhabited

/-- A program that changes a machine in its place. What it has done stays done if it stops. -/
abbrev Update := ExceptT Fault (StateM Machine)

/-- Runs a program; gives the machine as the program leaves it. -/
def Update.applyTo (p : Update Unit) (m : Machine) : Except Fault Unit × Machine := p.run.run m

/-- Copies a picture over the picture. -/
def copyPixels (px : Array UInt32) : Update Unit :=
  if h : px.size = pixelCount then modify ({ · with pixels := ⟨px, h⟩ })
  else throw (.copyLength pixelCount px.size)

/-- Copies bytes over the bank that can be written, if there is one. -/
def copyRam (bytes : ByteArray) : Update Unit := do
  match (← get).board.memory.bank? Board.ramBase with
  | none => pure ()
  | some bank =>
    if bytes.size = bank.size then
      modify (·.mapBoard fun b => { b with memory := b.memory.overwrite Board.ramBase 0 bytes })
    else throw (.copyLength bank.size bytes.size)

/-- Writes a record over the state, one piece after the other. -/
def commit (s : SaveState) : Update Unit := do
  modify ({ · with circuit.cpu := .ofSnapshot s.cpu })
  modify (·.mapBoard ({ · with shifter := .ofRecord s.shiftRegister s.shiftOffset }))
  modify (·.mapBoard ({ · with latch := ⟨s.input⟩ }))
  modify (·.mapBoard ({ · with dips := s.dips }))
  modify ({ · with frames := s.frames })
  modify ({ · with cycles := s.cycles })
  modify ({ · with pacing.headless := s.pacing.headless })
  modify ({ · with pacing.speed := s.pacing.speed })
  modify ({ · with pacing.uncapped := s.pacing.uncapped })
  copyPixels s.pixels
  copyRam s.ram

/-- Puts a record back in place: checks it, and writes it over the state. -/
def restoreInPlace (s : SaveState) : Update Unit :=
  match s.validate with
  | .error e => throw (.refused e)
  | .ok () => commit s

/-- Puts back in place what bytes hold. -/
def loadInPlace (b : ByteArray) : Update Unit :=
  match SaveState.ofBytes b with
  | .error e => throw (.refused e)
  | .ok s => restoreInPlace s

theorem applyTo_modify_bind (f : Machine → Machine) (p : Update Unit) (m : Machine) :
    Update.applyTo (modify f >>= fun _ => p) m = p.applyTo (f m) := rfl

theorem applyTo_copyPixels_bind {px : Array UInt32} (h : px.size = pixelCount) (p : Update Unit)
    (m : Machine) :
    Update.applyTo (copyPixels px >>= fun _ => p) m = p.applyTo { m with pixels := ⟨px, h⟩ } := by
  rw [copyPixels, dif_pos h]
  rfl

theorem applyTo_copyRam {bytes : ByteArray} {bank : Bank}
    (hb : m.board.memory.bank? Board.ramBase = some bank) (h : bytes.size = bank.size) :
    (copyRam bytes).applyTo m =
      (.ok (), m.mapBoard fun b => { b with memory := b.memory.overwrite Board.ramBase 0 bytes }) := by
  show Update.applyTo (match m.board.memory.bank? Board.ramBase with
    | none => pure ()
    | some bank => _) m = _
  rw [hb]
  show Update.applyTo (if bytes.size = bank.size then _ else _) m = _
  rw [if_pos h]
  rfl

/-- **The pieces make up the whole**: none of the copies stops. -/
theorem Sound.applyTo_commit (h : m.Sound rom checksums) {s : SaveState} (hs : s.validate = .ok ()) :
    (commit s).applyTo m = (.ok (), m.put s (SaveState.size_pixels_of_validate hs)) := by
  obtain ⟨ram, hm⟩ := h.memory
  have bank : m.board.memory.bank? Board.ramBase = some (.work ram) := by
    rw [board, hm, AddressSpace.bank?_ofBlocks]
  have size : s.ram.size = (Bank.work ram).size :=
    (SaveState.size_ram_of_validate hs).trans ram.property.symm
  unfold commit
  simp only [applyTo_modify_bind, applyTo_copyPixels_bind (SaveState.size_pixels_of_validate hs)]
  refine (applyTo_copyRam ?_ size).trans ?_
  · exact bank
  · rfl

/-- Without the check, a picture of the wrong length stops the writing half way. -/
theorem commit_stops {s : SaveState} (hs : s.pixels.size ≠ pixelCount) (m : Machine) :
    ((commit s).applyTo m).1 = .error (.copyLength pixelCount s.pixels.size) := by
  unfold commit
  simp only [applyTo_modify_bind]
  rw [copyPixels, dif_neg hs]
  rfl

/-! ### All or nothing -/

/-- Of the state of `n`, the record `s` gives what it records, and `m` the rest. -/
structure Committed (s : SaveState) (m n : Machine) : Prop where
  /-- What is recorded is that of the record. -/
  state : n.capture = s.normalised
  /-- The program is that of `m`, and the other bank holds the bytes of the record. -/
  memory : ∃ rom ram ram' : Block, m.board.memory = .ofBlocks rom ram ∧
    n.board.memory = .ofBlocks rom ram' ∧ ram'.val = s.ram
  /-- So the program reads as before. -/
  read_program : ∀ a : UInt16, a.toNat < 0x2000 → n.read a = m.read a
  /-- The checksums are those of `m`. -/
  checksums_eq : n.checksums = m.checksums
  /-- The address map is that of `m`. -/
  map_eq : n.map = m.map

theorem Sound.committed (h : m.Sound rom checksums) {s : SaveState} (hs : s.validate = .ok ()) :
    Committed s m (m.put s (SaveState.size_pixels_of_validate hs)) := by
  obtain ⟨ram, hm⟩ := h.memory
  have hn := h.memory_put hs
  refine ⟨h.capture_put hs, ⟨rom, ram, _, hm, hn, rfl⟩, fun a ha => ?_, rfl, rfl⟩
  rw [read, read, board, board, hm, hn, AddressSpace.read_ofBlocks, AddressSpace.read_ofBlocks,
    if_pos ha, if_pos ha]

theorem restore_eq_error_iff {s : SaveState} {e : SaveStateError} :
    m.restore s = .error e ↔ s.validate = .error e := by
  refine ⟨fun h => ?_, restore_of_error⟩
  cases hs : s.validate with
  | error e' => rw [restore_of_error hs] at h; cases h; rfl
  | ok u => rw [restore_of_ok hs] at h; cases h

theorem load_of_error {b : ByteArray} {e : SaveStateError} (h : SaveState.ofBytes b = .error e) :
    m.load b = .error e := by
  rw [load, h]
  rfl

/-- What was read passes the check, so that it is put back. -/
theorem load_of_ok {b : ByteArray} {s : SaveState} (h : SaveState.ofBytes b = .ok s) :
    m.load b = .ok (m.put s (SaveState.size_pixels_of_validate (SaveState.validate_of_ofBytes h))) := by
  rw [load, h]
  exact restore_of_ok (SaveState.validate_of_ofBytes h)

theorem load_eq_error_iff {b : ByteArray} {e : SaveStateError} :
    m.load b = .error e ↔ SaveState.ofBytes b = .error e := by
  refine ⟨fun h => ?_, load_of_error⟩
  cases hb : SaveState.ofBytes b with
  | error e' => rw [load_of_error hb] at h; cases h; rfl
  | ok s => rw [load_of_ok hb] at h; cases h

/-- A record that is refused changes nothing. -/
theorem applyTo_restoreInPlace_of_error {s : SaveState} {e : SaveStateError}
    (h : s.validate = .error e) : (restoreInPlace s).applyTo m = (.error (.refused e), m) := by
  rw [restoreInPlace, h]
  rfl

/-- A record that passes is written over the state to its end. -/
theorem Sound.applyTo_restoreInPlace (h : m.Sound rom checksums) {s : SaveState}
    (hs : s.validate = .ok ()) : (restoreInPlace s).applyTo m =
      (.ok (), m.put s (SaveState.size_pixels_of_validate hs)) := by
  rw [restoreInPlace, hs]
  exact h.applyTo_commit hs

theorem applyTo_loadInPlace_of_error {b : ByteArray} {e : SaveStateError}
    (h : SaveState.ofBytes b = .error e) :
    (loadInPlace b).applyTo m = (.error (.refused e), m) := by
  rw [loadInPlace, h]
  rfl

/-- **A machine that is reached takes a record, or the bytes of one, as a whole or not at all.** It
refuses exactly what is no record that it can take, with the reason of the check, and is then as it
was; writing the record over the state in place never stops half way. -/
theorem taken_whole_or_refused {chips : Chips} {m : Machine} (hm : m.Reachable chips) :
    (∀ b e, (m.load b = .error e ↔ SaveState.ofBytes b = .error e) ∧
      (SaveState.ofBytes b = .error e →
        (loadInPlace b).applyTo m = (.error (.refused e), m) ∧
          m.perform (.load b) = (.refused e, m))) ∧
    (∀ b s, SaveState.ofBytes b = .ok s →
      s.validate = .ok () ∧
        ∃ n, m.load b = .ok n ∧ (loadInPlace b).applyTo m = (.ok (), n) ∧ Committed s m n) ∧
    (∀ s e, (m.restore s = .error e ↔ s.validate = .error e) ∧
      (s.validate = .error e →
        (restoreInPlace s).applyTo m = (.error (.refused e), m) ∧
          m.perform (.restore s) = (.refused e, m))) ∧
    ∀ s : SaveState, s.validate = .ok () →
      ∃ n, m.restore s = .ok n ∧ (restoreInPlace s).applyTo m = (.ok (), n) ∧ Committed s m n := by
  obtain ⟨rom, checksums, sound⟩ := exists_sound chips
  have hs := sound hm
  refine ⟨fun b e => ⟨load_eq_error_iff, fun h => ?_⟩, fun b s h => ?_,
    fun s e => ⟨restore_eq_error_iff, fun h => ?_⟩, fun s h => ?_⟩
  · refine ⟨applyTo_loadInPlace_of_error h, ?_⟩
    rw [perform, load_of_error h]
    rfl
  · have hv := SaveState.validate_of_ofBytes h
    refine ⟨hv, _, load_of_ok h, ?_, hs.committed hv⟩
    rw [loadInPlace, h]
    exact hs.applyTo_restoreInPlace hv
  · refine ⟨applyTo_restoreInPlace_of_error h, ?_⟩
    rw [perform, restore_of_error h]
    rfl
  · exact ⟨_, restore_of_ok h, hs.applyTo_restoreInPlace h, hs.committed h⟩

/-- A record with bits in its flag byte and in its offset that no machine keeps. -/
def overfull : SaveState := { cpu := { f := 0xFF, pending := 11 }, shiftOffset := 0xFF }

/-- A record without a picture. -/
def pictureless : SaveState := { overfull with pixels := #[] }

theorem idle_takes_overfull_refuses_pictureless :
    idle.Reachable idleChips ∧ overfull.validate = .ok () ∧
      (∃ n, idle.restore overfull = .ok n ∧ (restoreInPlace overfull).applyTo idle = (.ok (), n) ∧
        n.capture.cpu.f = 0xD7 ∧ n.capture.shiftOffset = 7) ∧
      idle.perform (.restore pictureless) =
        (.refused (.sectionLength "pixel buffer" pixelCount 0), idle) := by
  obtain ⟨-, -, refuses, takes⟩ := taken_whole_or_refused reachable_idle
  have passes : overfull.validate = .ok () :=
    SaveState.validate_eq_ok_iff.2 ⟨⟨Array.size_replicate, Bytes.size_zeros _⟩, .inr rfl⟩
  have fails : pictureless.validate = .error (.sectionLength "pixel buffer" pixelCount 0) := by
    rw [SaveState.validate, SaveState.checkLengths, if_pos (by decide)]
    rfl
  obtain ⟨n, pure, inPlace, committed⟩ := takes overfull passes
  refine ⟨reachable_idle, passes, ⟨n, pure, inPlace, ?_, ?_⟩, ((refuses _ _).2 fails).2⟩
  · rw [committed.state]
    rfl
  · rw [committed.state]
    rfl

end Machine

end Cabinet
