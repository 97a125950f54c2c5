import Cabinet.Board
import Cabinet.Cpu.Run
import Cabinet.Observation.Snapshot
import Cabinet.Rom.Program
import Cabinet.Video.Raster
/-!
# The machine

The machine is what stands in a cabinet of Space Invaders: a processor on its board, the picture last
taken from video memory, counters of the frames and cycles run, and what its owner has set. It is
built from a program of four chips: the program is protected from writing, its first byte is replaced
by a jump, and the processor starts behind that byte. Memory above the program is eight kilobytes that
can be written.
-/

namespace Cabinet

/-- The state of a machine. -/
structure Machine where
  /-- The processor and its board. -/
  circuit : Circuit Board
  /-- The picture last taken from video memory. -/
  pixels : PixelBuffer
  /-- The number of frames run. -/
  frames : UInt64
  /-- The number of cycles run. -/
  cycles : UInt64
  /-- How the machine is paced. -/
  pacing : Pacing
  /-- The checksums of its chips. -/
  checksums : List UInt32
  /-- Where its program keeps the state of the game, if that is known. -/
  map : Option AddressMap

/-- Why no machine is built. -/
inductive InitError where
  /-- The program is refused. -/
  | rom (e : RomError)
  /-- A memory bank is refused. -/
  | bank (e : BankError)
deriving DecidableEq, Inhabited

/-- The wording of the reason. -/
def InitError.message : InitError → String
  | .rom e => s!"ROM load failed: {e.message}"
  | .bank e => s!"memory map rejected: {e.message}"

namespace Machine

/-- Where the processor starts. -/
def resetVector : UInt16 := 0x0001

/-- The first byte of the program: a jump. -/
def patchByte : UInt8 := 0xC3

/-- The memory of a machine with the given program. -/
def memoryOf (program : ByteArray) : Except BankError AddressSpace := do
  let s ← AddressSpace.empty.register Board.romBase programRom.size (some program) true
  (s.overwrite Board.romBase 0 (Bytes.ofList [patchByte])).register
    Board.ramBase Board.ramSize none false

/-- The machine with an assembled program. -/
def ofProgram (program : RomImage) (settings : Settings) : Except InitError Machine := do
  let memory ← (memoryOf program.data).mapError .bank
  return {
    circuit := { cpu := .atReset resetVector, bus := { memory, dips := settings.dips } }
    pixels := .blank
    frames := 0
    cycles := 0
    pacing := settings.pacing
    checksums := program.checksums
    map := AddressMap.ofChecksums? program.checksums }

/-- The machine with the given chips. -/
def ofChips (chips : Chips) (settings : Settings) : Except InitError Machine := do
  ofProgram (← (programRom.loadImages chips.toList).mapError .rom) settings

/-- The machine with chips from a ROM set, of whatever program they are. -/
def ofRomSet (set : RomSet) (settings : Settings) : Except InitError Machine := do
  ofProgram (← (programRom.load set).mapError .rom) settings

/-- The machine with the chips of the known program from a ROM set. -/
def ofRomSetStrict (set : RomSet) (settings : Settings) : Except InitError Machine := do
  ofProgram (← (programRom.loadStrict set).mapError .rom) settings

end Machine

end Cabinet
