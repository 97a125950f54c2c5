import Cabinet.Machine.Operate
import Cabinet.SaveState.Codec
/-!
# Recording and restoring a machine

The state of a machine is taken into a save state (`capture`) and put back (`restore`). A save state
that no machine can take, or bytes that are no save state, change nothing.
-/

namespace Cabinet.Machine

/-- The contents of the memory that can be written. -/
def ram (m : Machine) : ByteArray :=
  match m.board.memory.bank? Board.ramBase with
  | some b => b.contents
  | none => Bytes.zeros Board.ramSize

/-- The state as a record. -/
def capture (m : Machine) : SaveState where
  cpu := m.circuit.cpu.snapshot
  shiftRegister := m.board.shifter.register
  shiftOffset := UInt8.ofNat m.board.shifter.offset
  input := m.board.latch.bits
  dips := m.board.dips
  frames := m.frames
  cycles := m.cycles
  pacing := m.pacing
  pixels := m.pixels.toArray
  ram := m.ram

/-- The machine with a recorded state, whose picture has its length, in the place of its own. -/
def put (m : Machine) (s : SaveState) (hp : s.pixels.size = pixelCount) : Machine :=
  { m with
    circuit := {
      cpu := .ofSnapshot s.cpu
      bus := {
        memory := m.board.memory.overwrite Board.ramBase 0 s.ram
        shifter := .ofRecord s.shiftRegister s.shiftOffset
        latch := ⟨s.input⟩
        dips := s.dips } }
    pixels := ⟨s.pixels, hp⟩
    frames := s.frames
    cycles := s.cycles
    pacing := s.pacing }

/-- Puts a recorded state back. -/
def restore (m : Machine) (s : SaveState) : Except SaveStateError Machine :=
  match h : s.validate with
  | .error e => .error e
  | .ok () => .ok (m.put s (SaveState.size_pixels_of_validate h))

theorem restore_of_error {m : Machine} {s : SaveState} {e : SaveStateError}
    (h : s.validate = .error e) : m.restore s = .error e := by
  unfold restore
  split
  · next h' => rw [h] at h'; exact congrArg _ (Except.error.inj h').symm
  · next h' => rw [h] at h'; cases h'

theorem restore_of_ok {m : Machine} {s : SaveState} (h : s.validate = .ok ()) :
    m.restore s = .ok (m.put s (SaveState.size_pixels_of_validate h)) := by
  unfold restore
  split
  · next h' => rw [h] at h'; cases h'
  · rfl

/-- The state as bytes. -/
def save (m : Machine) : ByteArray := m.capture.toBytes

/-- Puts back the state that bytes hold. -/
def load (m : Machine) (b : ByteArray) : Except SaveStateError Machine := do
  m.restore (← SaveState.ofBytes b)

end Cabinet.Machine
