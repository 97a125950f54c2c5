import Cabinet.Controls
import Cabinet.Cpu.Bus
import Cabinet.Memory.AddressSpace
import Cabinet.Settings
import Cabinet.Shifter
/-!
# The board

Everything on the far side of the processor's bus: memory, the bit shifter, the latch of the buttons
and the switches. The processor reads switches at ports 0 and 2, the latch at port 1 and the shifter
at port 3; it writes the shifter at ports 2 and 4. Every other port reads zero and ignores what is
written.
-/

namespace Cabinet

/-- The state of the board. -/
structure Board where
  /-- Memory. -/
  memory : AddressSpace
  /-- The bit shifter. -/
  shifter : Shifter := {}
  /-- The buttons. -/
  latch : Latch := .idle
  /-- The switches. -/
  dips : Dips := .factory

namespace Board

/-- The address of the program. -/
def romBase : UInt16 := 0x0000

/-- The address of the memory that can be written. -/
def ramBase : UInt16 := 0x2000

/-- The number of bytes of memory that can be written. -/
def ramSize : Nat := 0x2000

/-- The number of a port: the low byte of the address on the bus. -/
@[inline] def portNumber (a : UInt16) : UInt16 := a &&& 0xFF

/-- What the processor reads at a port. -/
def input (board : Board) (a : UInt16) : UInt8 :=
  match portNumber a with
  | 0 => board.dips.first
  | 1 => board.latch.bits
  | 2 => board.dips.third
  | 3 => board.shifter.result
  | _ => 0

/-- What happens when the processor writes to a port. -/
def output (board : Board) (a : UInt16) (v : UInt8) : Board :=
  match portNumber a with
  | 2 => { board with shifter := board.shifter.setOffset v }
  | 4 => { board with shifter := board.shifter.pushData v }
  | _ => board

instance : Bus Board where
  read a board := (board.memory.read a, board)
  write a v board := { board with memory := board.memory.write a v }
  input a board := (board.input a, board)
  output a v board := board.output a v

end Board

end Cabinet
