import Cabinet.Rom.Region
/-!
# The program ROM

The program of the board lies in four chips, h, g, f and e from the lowest address up.
-/

namespace Cabinet

/-- The images of the four program chips. -/
structure Chips where
  /-- The chip at 0x0000. -/
  h : ByteArray
  /-- The chip at 0x0800. -/
  g : ByteArray
  /-- The chip at 0x1000. -/
  f : ByteArray
  /-- The chip at 0x1800. -/
  e : ByteArray

/-- The chips from the lowest address up. -/
def Chips.toList (c : Chips) : List ByteArray := [c.h, c.g, c.f, c.e]

/-- The layout of the program, with the checksums of the release of 1978. -/
def programRom : RomRegion where
  size := 0x2000
  entries := [
    { name := "invaders.h", size := 0x800, offset := 0x0000, crc := 0x734F5AD8 },
    { name := "invaders.g", size := 0x800, offset := 0x0800, crc := 0x6BFACA4A },
    { name := "invaders.f", size := 0x800, offset := 0x1000, crc := 0x0CCEAD96 },
    { name := "invaders.e", size := 0x800, offset := 0x1800, crc := 0x14E538B0 }]

end Cabinet
