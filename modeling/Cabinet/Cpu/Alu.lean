import Cabinet.Cpu.Basic
/-!
# Arithmetic and logic

The operations of the arithmetic unit on the accumulator and the flags. A sum is described by the
exact natural number it stands for: the carry says that it does not fit eight bits, the auxiliary
carry that the sum of the low halves does not fit four. A difference is the sum with the complement
and the inverted borrow, so its auxiliary carry is that of the sum and its carry is inverted.
-/

namespace Cabinet

/-- Whether a byte has an even number of one bits. -/
def evenParity (v : UInt8) : Bool :=
  let v := v ^^^ (v >>> 4)
  let v := v ^^^ (v >>> 2)
  let v := v ^^^ (v >>> 1)
  v &&& 1 == 0

namespace Flags

/-- Sets sign, zero and parity from a result, and keeps both carries. -/
@[inline] def ofResult (f : Flags) (v : UInt8) : Flags :=
  { f with sign := v &&& 0x80 != 0, zero := v == 0, parity := evenParity v }

end Flags

/-- The two-operand operations of the arithmetic unit. -/
inductive AluOp where
  | add | adc | sub | sbb | ana | xra | ora | cmp
deriving DecidableEq, Inhabited

namespace Alu

/-- The sum of two bytes and a carry, and all five flags. -/
@[inline] def sum (x y : UInt8) (carry : Bool) : UInt8 × Flags :=
  let exact := x.toUInt16 + y.toUInt16 + carry.toUInt16
  let low := (x &&& 0x0F) + (y &&& 0x0F) + carry.toUInt8
  let v := exact.toUInt8
  (v, { Flags.ofResult {} v with auxCarry := low > 0x0F, carry := exact > 0xFF })

/-- The difference of two bytes and a borrow, and all five flags. -/
@[inline] def difference (x y : UInt8) (borrow : Bool) : UInt8 × Flags :=
  let (v, f) := sum x (~~~y) (!borrow)
  (v, { f with carry := !f.carry })

/-- The flags of a bitwise operation: the carry is cleared. -/
@[inline] def bitwiseFlags (v : UInt8) (auxCarry : Bool) : Flags :=
  { Flags.ofResult {} v with auxCarry, carry := false }

/-- The result of an operation on the accumulator `x` and operand `y`, and the flags. The result of a
comparison is a difference that is not kept. -/
@[inline] def apply (op : AluOp) (x y : UInt8) (carry : Bool) : UInt8 × Flags :=
  match op with
  | .add => sum x y false
  | .adc => sum x y carry
  | .sub => difference x y false
  | .sbb => difference x y carry
  | .ana => (x &&& y, bitwiseFlags (x &&& y) ((x ||| y) &&& 0x08 != 0))
  | .xra => (x ^^^ y, bitwiseFlags (x ^^^ y) false)
  | .ora => (x ||| y, bitwiseFlags (x ||| y) false)
  | .cmp => (x, (difference x y false).2)

/-- One more, with the carry kept. -/
@[inline] def increment (x : UInt8) (f : Flags) : UInt8 × Flags :=
  let v := x + 1
  (v, { f.ofResult v with auxCarry := v &&& 0x0F == 0x00 })

/-- One less, with the carry kept. -/
@[inline] def decrement (x : UInt8) (f : Flags) : UInt8 × Flags :=
  let v := x - 1
  (v, { f.ofResult v with auxCarry := v &&& 0x0F != 0x0F })

/-- The accumulator and flags after a decimal adjustment: six is added to a digit that exceeds nine
or that produced a carry. -/
def decimalAdjust (x : UInt8) (f : Flags) : UInt8 × Flags :=
  let low := x &&& 0x0F
  let high := x >>> 4
  let fixLow := f.auxCarry || low > 9
  let fixHigh := f.carry || high > 9 || (high >= 9 && low > 9)
  let correction := (if fixLow then 0x06 else 0) ||| (if fixHigh then 0x60 else 0)
  let (v, g) := sum x correction false
  (v, { g with carry := fixHigh })

end Alu

namespace Cpu

/-- Applies an arithmetic operation to the accumulator. -/
@[inline] def alu (cpu : Cpu) (op : AluOp) (v : UInt8) : Cpu :=
  let (a, flags) := Alu.apply op cpu.a v cpu.flags.carry
  { cpu with a, flags }

/-- Decimal adjustment of the accumulator. -/
@[inline] def daa (cpu : Cpu) : Cpu :=
  let (a, flags) := Alu.decimalAdjust cpu.a cpu.flags
  { cpu with a, flags }

/-- Sets the carry and keeps the other flags. -/
@[inline] def setCarry (cpu : Cpu) (on : Bool) : Cpu :=
  { cpu with flags := { cpu.flags with carry := on } }

/-- Adds a word to HL; only the carry tells of an overflow. -/
@[inline] def dad (cpu : Cpu) (w : UInt16) : Cpu :=
  let exact := cpu.hl.toUInt32 + w.toUInt32
  (cpu.setCarry (exact > 0xFFFF)).setHl exact.toUInt16

/-- Rotates the accumulator left; the bit that leaves is the carry and comes in again below. -/
@[inline] def rlc (cpu : Cpu) : Cpu :=
  let out := cpu.a &&& 0x80 != 0
  { cpu with a := (cpu.a <<< 1) ||| out.toUInt8 }.setCarry out

/-- Rotates the accumulator right; the bit that leaves is the carry and comes in again above. -/
@[inline] def rrc (cpu : Cpu) : Cpu :=
  let out := cpu.a &&& 0x01 != 0
  { cpu with a := (cpu.a >>> 1) ||| (out.toUInt8 <<< 7) }.setCarry out

/-- Rotates the accumulator left through the carry. -/
@[inline] def ral (cpu : Cpu) : Cpu :=
  let out := cpu.a &&& 0x80 != 0
  { cpu with a := (cpu.a <<< 1) ||| cpu.flags.carry.toUInt8 }.setCarry out

/-- Rotates the accumulator right through the carry. -/
@[inline] def rar (cpu : Cpu) : Cpu :=
  let out := cpu.a &&& 0x01 != 0
  { cpu with a := (cpu.a >>> 1) ||| (cpu.flags.carry.toUInt8 <<< 7) }.setCarry out

end Cpu

end Cabinet
