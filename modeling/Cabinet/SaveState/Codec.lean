import Cabinet.Bytes.Little
import Cabinet.SaveState.Basic
/-!
# Save states as bytes

The bytes of a save state are five sections of fixed lengths: a header, the processor, the rest of the
machine, the picture and the memory. Numbers are stored lowest byte first, truth values as one or zero;
any byte but zero is read as true. Reading takes the sections in order and stops at the first fault.
-/

namespace Cabinet.SaveState

/-- The place of a section. -/
structure Section where
  /-- The name by which it is known in messages. -/
  title : String
  /-- The position of its first byte. -/
  start : Nat
  /-- The number of its bytes. -/
  length : Nat

namespace Section

/-- What the bytes are, and in which version. -/
def header : Section := ⟨"header", 0, 8⟩

/-- The processor. -/
def cpu : Section := ⟨"cpu", 8, 18⟩

/-- The shifter, the latch, the switches, the counters and the pacing. -/
def machine : Section := ⟨"machine", 26, 29⟩

/-- The picture. -/
def pixels : Section := ⟨"pixel buffer", 55, 4 * pixelCount⟩

/-- The memory. -/
def ram : Section := ⟨"ram", 55 + 4 * pixelCount, Board.ramSize⟩

/-- Refuses bytes that end within the section. -/
def check (s : Section) (b : ByteArray) : Except SaveStateError Unit :=
  if b.size < s.start + s.length then .error (.truncated s.title s.length (b.size - s.start))
  else .ok ()

end Section

/-- The number of bytes of a save state. -/
def encodedSize : Nat := Section.ram.start + Section.ram.length

/-- How the bytes of a save state begin. -/
def magic : List UInt8 := [0x53, 0x49, 0x38, 0x30]

/-! ### Writing -/

/-- A truth value in a byte. -/
def boolByte (b : Bool) : UInt8 := if b then 1 else 0

/-- The bytes before the picture. -/
def leadBytes (s : SaveState) : List UInt8 :=
  magic ++ Little.encode 4 version.toNat ++
    [s.cpu.a, s.cpu.b, s.cpu.c, s.cpu.d, s.cpu.e, s.cpu.h, s.cpu.l, s.cpu.f] ++
    Little.encode 2 s.cpu.sp.toNat ++ Little.encode 2 s.cpu.pc.toNat ++
    [boolByte s.cpu.inte, boolByte s.cpu.halted] ++ Little.encode 4 s.cpu.pending.toNat ++
    Little.encode 2 s.shiftRegister.toNat ++
    [s.shiftOffset, s.input, s.dips.first, s.dips.second, s.dips.third] ++
    Little.encode 8 s.frames.toNat ++ Little.encode 8 s.cycles.toNat ++
    [boolByte s.pacing.headless] ++ Little.encode 4 s.pacing.speed.bits.toNat ++
    [boolByte s.pacing.uncapped]

/-- The bytes of a picture. -/
def pixelBytes (px : Array UInt32) : ByteArray :=
  Bytes.ofFn (4 * px.size) fun i => Little.byte (px[i.val / 4]).toNat (i % 4)

/-- The bytes of a save state. -/
def toBytes (s : SaveState) : ByteArray :=
  Bytes.ofList s.leadBytes ++ pixelBytes s.pixels ++ s.ram

/-! ### Reading -/

/-- The truth value in a byte. -/
def boolAt (b : ByteArray) (i : Nat) : Bool := Bytes.get b i != 0

/-- The processor in the bytes. -/
def cpuAt (b : ByteArray) : Cpu.Snapshot where
  a := Bytes.get b 8
  b := Bytes.get b 9
  c := Bytes.get b 10
  d := Bytes.get b 11
  e := Bytes.get b 12
  h := Bytes.get b 13
  l := Bytes.get b 14
  f := Bytes.get b 15
  sp := Little.word16 b 16
  pc := Little.word16 b 18
  inte := boolAt b 20
  halted := boolAt b 21
  pending := Little.word32 b 22

/-- The record in bytes that have the size of a save state. -/
def recordAt (b : ByteArray) : SaveState where
  cpu := cpuAt b
  shiftRegister := Little.word16 b 26
  shiftOffset := Bytes.get b 28
  input := Bytes.get b 29
  dips := ⟨Bytes.get b 30, Bytes.get b 31, Bytes.get b 32⟩
  frames := Little.word64 b 33
  cycles := Little.word64 b 41
  pacing := { headless := boolAt b 49, speed := ⟨Little.word32 b 50⟩, uncapped := boolAt b 54 }
  pixels := Array.ofFn fun i : Fin pixelCount => Little.word32 b (Section.pixels.start + 4 * i)
  ram := b.extract Section.ram.start encodedSize

/-- Reads a save state. -/
def ofBytes (b : ByteArray) : Except SaveStateError SaveState := do
  Section.header.check b
  let found := (List.range 4).map (Bytes.get b)
  if found ≠ magic then throw (.badMagic found)
  if Little.word32 b 4 ≠ version then throw (.unsupportedVersion (Little.word32 b 4))
  Section.cpu.check b
  checkPending (cpuAt b).pending
  Section.machine.check b
  Section.pixels.check b
  Section.ram.check b
  if encodedSize < b.size then throw (.trailingData (b.size - encodedSize))
  return recordAt b

end Cabinet.SaveState
