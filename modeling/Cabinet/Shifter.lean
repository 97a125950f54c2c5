import Cabinet.Word
/-!
# The bit shifter

A device beside the processor that shifts a word left by up to seven bits. Each data byte moves into
the high half of the register and the previous one into the low half; the result is the high byte of
the register shifted left by the offset.
-/

namespace Cabinet

/-- The three low bits of a byte as an offset. -/
def Shifter.offsetOf (v : UInt8) : Fin 8 := ⟨v.toNat % 8, Nat.mod_lt _ (by decide)⟩

/-- The state of the shifter. -/
structure Shifter where
  /-- The last data byte over the one before it. -/
  register : UInt16 := 0
  /-- How far the register is shifted. -/
  offset : Fin 8 := Shifter.offsetOf 0
deriving DecidableEq, Inhabited

namespace Shifter

/-- The shifter in a recorded state; of the offset only the three low bits are taken. -/
def ofRecord (register : UInt16) (offset : UInt8) : Shifter := { register, offset := offsetOf offset }

/-- Takes in a data byte. -/
def pushData (s : Shifter) (v : UInt8) : Shifter :=
  { s with register := word v (hiByte s.register) }

/-- Sets the offset from the three low bits of a byte. -/
def setOffset (s : Shifter) (v : UInt8) : Shifter := { s with offset := offsetOf v }

/-- The byte that the shifter shows. -/
def result (s : Shifter) : UInt8 := hiByte (s.register <<< UInt16.ofNat s.offset)

end Shifter

end Cabinet
