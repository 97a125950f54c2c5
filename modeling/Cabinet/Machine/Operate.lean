import Cabinet.Machine.Basic
/-!
# Operating a machine

A frame is two bursts of the processor with an interrupt after each: the first when the beam is in the
middle of the screen, the second when it is at the end. Between frames the owner presses buttons, sets
switches and pacing, looks at memory, takes the picture and observes the game. A reset clears all that
has happened and keeps the program and the settings.
-/

namespace Cabinet.Machine

/-! ### Running -/

/-- The cycles of half a frame. -/
def halfFrame : UInt32 := 17066

/-- The cycles of a second. -/
def clockRate : Nat := 1996800

/-- The frames of a second. -/
def frameRate : Float := Float.ofNat clockRate / Float.ofNat (2 * halfFrame.toNat)

/-- The interrupt in the middle of the screen. -/
def midScreen : UInt16 := 0x0008

/-- The interrupt at the end of the screen. -/
def endScreen : UInt16 := 0x0010

/-- Runs a frame; gives the cycles that it took. -/
def stepFrame (m : Machine) : UInt32 × Machine :=
  let (first, w) := m.circuit.execute halfFrame
  let (_, w) := w.interrupt midScreen
  let (second, w) := w.execute halfFrame
  let (_, w) := w.interrupt endScreen
  let total := addCycles first second
  (total, { m with circuit := w, frames := m.frames + 1, cycles := m.cycles + total.toUInt64 })

/-- Runs a burst without an interrupt; gives the cycles that it took. -/
def stepCycles (m : Machine) (budget : UInt32) : UInt32 × Machine :=
  let (used, w) := m.circuit.execute budget
  (used, { m with circuit := w, cycles := m.cycles + used.toUInt64 })

/-! ### The owner's side of the board -/

/-- The processor is halted. -/
def isHalted (m : Machine) : Bool := m.circuit.cpu.halted

/-- The board. -/
def board (m : Machine) : Board := m.circuit.bus

/-- Changes the board. -/
def mapBoard (m : Machine) (f : Board → Board) : Machine :=
  { m with circuit.bus := f m.circuit.bus }

/-- The byte that the processor would read. -/
def read (m : Machine) (a : UInt16) : UInt8 := m.board.memory.read a

/-- Writes a byte as the processor would. -/
def write (m : Machine) (a : UInt16) (v : UInt8) : Machine :=
  m.mapBoard fun b => { b with memory := b.memory.write a v }

/-- Sets the buttons from bits; bits that belong to no button are dropped. -/
def setInputBits (m : Machine) (v : UInt8) : Machine :=
  m.mapBoard ({ · with latch := .ofBits v })

/-- Presses or releases the button of a number; a number of no button is ignored. -/
def setInput (m : Machine) (id : UInt8) (pressed : Bool) : Machine :=
  match Button.ofId? id with
  | some button => m.mapBoard fun b => { b with latch := b.latch.set button pressed }
  | none => m

/-! ### Settings -/

/-- The settings. -/
def settings (m : Machine) : Settings := { pacing := m.pacing, dips := m.board.dips }

/-- Sets the switches. -/
def setDips (m : Machine) (dips : Dips) : Machine := m.mapBoard ({ · with dips })

/-- Sets the speed. At speed zero there is no limit of speed. -/
def setSpeed (m : Machine) (speed : Speed) : Machine :=
  { m with pacing := { m.pacing with speed, uncapped := speed.isZero || m.pacing.uncapped } }

/-- Sets whether there is a limit of speed. -/
def setUncapped (m : Machine) (uncapped : Bool) : Machine :=
  { m with pacing := { m.pacing with uncapped } }

/-- Sets where the program keeps the state of the game. -/
def setMap (m : Machine) (map : Option AddressMap) : Machine := { m with map }

/-! ### Looking -/

/-- Takes the picture from video memory. -/
def updatePixels (m : Machine) : Machine := { m with pixels := .decode m.read }

/-- What can be seen of the game. -/
def observe (m : Machine) : Except Observation.UnknownRevision Observation :=
  match m.map with
  | some map => .ok (.take map m.read m.isHalted m.frames)
  | none => .error { checksums := m.checksums }

/-! ### Reset -/

/-- Starts anew. The program, the settings and the address map are kept, and interrupts are enabled. -/
def reset (m : Machine) : Machine :=
  { m with
    circuit := {
      cpu := { Cpu.atReset resetVector with inte := true }
      bus := {
        memory := m.board.memory.overwrite Board.ramBase 0 (Bytes.zeros Board.ramSize)
        dips := m.board.dips } }
    pixels := .blank
    frames := 0
    cycles := 0 }

end Cabinet.Machine
