/-!
# Condition flags

The five condition flags of the processor, and the byte in which PUSH PSW stores them. Three bits of
that byte carry no flag: bit 1 always reads as one, bits 3 and 5 as zero, so reading a byte as flags
and writing it back normalises these three bits and keeps the other five (`toByte_ofByte`).
-/

namespace Cabinet

/-- The condition flags. -/
structure Flags where
  /-- Bit 7 of the last result. -/
  sign : Bool := false
  /-- The last result was zero. -/
  zero : Bool := false
  /-- Carry out of bit 3. -/
  auxCarry : Bool := false
  /-- The last result had an even number of one bits. -/
  parity : Bool := false
  /-- Carry out of bit 7, or a borrow. -/
  carry : Bool := false
deriving DecidableEq, Inhabited

namespace Flags

/-- The flag byte: S Z 0 AC 0 P 1 CY, from bit 7 down to bit 0. -/
def toByte (f : Flags) : UInt8 :=
  (if f.sign then 0x80 else 0) ||| (if f.zero then 0x40 else 0) |||
    (if f.auxCarry then 0x10 else 0) ||| (if f.parity then 0x04 else 0) |||
    (if f.carry then 0x01 else 0) ||| 0x02

/-- The flags in a byte. The three bits that carry no flag are ignored. -/
def ofByte (b : UInt8) : Flags where
  sign := b &&& 0x80 != 0
  zero := b &&& 0x40 != 0
  auxCarry := b &&& 0x10 != 0
  parity := b &&& 0x04 != 0
  carry := b &&& 0x01 != 0

@[simp] theorem ofByte_toByte (f : Flags) : ofByte f.toByte = f := by
  rcases f with ⟨_ | _, _ | _, _ | _, _ | _, _ | _⟩ <;> rfl

/-- Bit 1 becomes one, bits 3 and 5 become zero, the others are kept. -/
theorem toByte_ofByte (b : UInt8) : (ofByte b).toByte = (b &&& 0xD5) ||| 0x02 := by
  have h : ∀ n : Fin 256, (ofByte (UInt8.ofFin n)).toByte = (UInt8.ofFin n &&& 0xD5) ||| 0x02 := by
    decide +kernel
  simpa using h b.toFin

end Flags

end Cabinet
