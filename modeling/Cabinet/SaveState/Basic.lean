import Cabinet.Board
import Cabinet.Cpu.Run
import Cabinet.Text.Hex
import Cabinet.Video.Raster
/-!
# Save states

A save state is everything about a machine that changes while it runs, as a record apart from any
machine. A record made by hand may hold what no machine can take: a picture or a memory of the wrong
length, or a number of pending cycles that no interrupt leaves. `validate` refuses these.
-/

namespace Cabinet

/-- The state of a machine as a record. -/
structure SaveState where
  /-- The processor. -/
  cpu : Cpu.Snapshot := {}
  /-- The register of the shifter. -/
  shiftRegister : UInt16 := 0
  /-- The offset of the shifter. -/
  shiftOffset : UInt8 := 0
  /-- The latch of the buttons. -/
  input : UInt8 := 0
  /-- The switches. -/
  dips : Dips := ⟨0, 0, 0⟩
  /-- The number of frames run. -/
  frames : UInt64 := 0
  /-- The number of cycles run. -/
  cycles : UInt64 := 0
  /-- How the machine is paced. -/
  pacing : Pacing := { headless := false, speed := .zero, uncapped := false }
  /-- The picture. -/
  pixels : Array UInt32 := Array.replicate pixelCount 0
  /-- The memory that can be written. -/
  ram : ByteArray := Bytes.zeros Board.ramSize

/-- Why a save state, or the bytes of one, is refused. -/
inductive SaveStateError where
  /-- A file cannot be read or written. -/
  | io
  /-- The bytes do not begin as those of a save state. -/
  | badMagic (found : List UInt8)
  /-- The bytes are those of another version. -/
  | unsupportedVersion (found : UInt32)
  /-- The bytes end within a section. -/
  | truncated (title : String) (expected actual : Nat)
  /-- There are bytes behind the last section. -/
  | trailingData (extra : Nat)
  /-- No interrupt leaves so many pending cycles. -/
  | pendingCycles (found : UInt32)
  /-- A section does not have its length. -/
  | sectionLength (title : String) (expected actual : Nat)
deriving DecidableEq, Inhabited

namespace SaveState

/-- The version of the format. -/
def version : UInt32 := 1

/-- The numbers of pending cycles that interrupts leave: none, or those of one acknowledge. -/
def checkPending (n : UInt32) : Except SaveStateError Unit :=
  if n = 0 ∨ n = interruptCycles then .ok () else .error (.pendingCycles n)

/-- Refuses a picture or a memory of the wrong length. -/
def checkLengths (s : SaveState) : Except SaveStateError Unit :=
  if s.pixels.size ≠ pixelCount then
    .error (.sectionLength "pixel buffer" pixelCount s.pixels.size)
  else if s.ram.size ≠ Board.ramSize then
    .error (.sectionLength "ram" Board.ramSize s.ram.size)
  else .ok ()

/-- Refuses what no machine can take. -/
def validate (s : SaveState) : Except SaveStateError Unit := do
  s.checkLengths
  checkPending s.cpu.pending

theorem size_pixels_of_validate {s : SaveState} (h : s.validate = .ok ()) :
    s.pixels.size = pixelCount := by
  by_cases hp : s.pixels.size = pixelCount
  · exact hp
  · simp [validate, checkLengths, hp, bind, Except.bind] at h

theorem size_ram_of_validate {s : SaveState} (h : s.validate = .ok ()) :
    s.ram.size = Board.ramSize := by
  have hp := size_pixels_of_validate h
  by_cases hr : s.ram.size = Board.ramSize
  · exact hr
  · simp [validate, checkLengths, hp, hr, bind, Except.bind] at h

/-- The two records are equal, their speeds as numbers. -/
def agrees (s t : SaveState) : Bool :=
  s.cpu == t.cpu && s.shiftRegister == t.shiftRegister && s.shiftOffset == t.shiftOffset &&
    s.input == t.input && s.dips == t.dips && s.frames == t.frames && s.cycles == t.cycles &&
    s.pacing.headless == t.pacing.headless && s.pacing.speed.agrees t.pacing.speed &&
    s.pacing.uncapped == t.pacing.uncapped && s.pixels == t.pixels && s.ram.data == t.ram.data

end SaveState

/-- The wording of the reason. -/
def SaveStateError.message : SaveStateError → String
  | .io => "I/O error"
  | .badMagic found => s!"not a save state (magic {Text.bracketed (found.map Text.hexByte)})"
  | .unsupportedVersion found =>
    s!"unsupported save state version {found} (expected {SaveState.version})"
  | .truncated name expected actual =>
    s!"save state truncated in {name}: need {expected} bytes, {actual} left"
  | .trailingData extra => s!"{extra} unexpected bytes after the end of the save state"
  | .pendingCycles found =>
    s!"pending interrupt-acknowledge cycles {found} (expected 0 or {interruptCycles})"
  | .sectionLength name expected actual => s!"{name} is {actual} entries, expected {expected}"

end Cabinet
