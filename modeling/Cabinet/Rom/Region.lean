import Cabinet.Bytes
import Cabinet.Crc32
import Cabinet.Rom.Set
import Cabinet.Text.Hex
/-!
# ROM regions

A region says how chips are laid out in one run of bytes, and which checksums the chips of a known
program have. Assembling a region takes its chips from a ROM set, checks their lengths, copies them to
their places in order, and records the checksum of each. Loading strictly also refuses a chip whose
checksum is not the listed one.
-/

namespace Cabinet

/-- The wording of the reason. -/
def RomError.message : RomError → String
  | .missingFile name => s!"missing ROM file: {name}"
  | .sizeMismatch file expected actual => s!"ROM {file}: expected {expected} bytes, got {actual}"
  | .checksumMismatch file expected actual =>
    s!"ROM {file}: CRC32 expected 0x{Text.hexLong expected}, got 0x{Text.hexLong actual}"

/-- The place of one chip in a region. -/
structure RomEntry where
  /-- The file name of the chip. -/
  name : String
  /-- Its length. -/
  size : Nat
  /-- The distance of its first byte from the start of the region. -/
  offset : Nat
  /-- The checksum of the known chip. -/
  crc : UInt32
deriving DecidableEq, Inhabited

/-- A layout of chips. -/
structure RomRegion where
  /-- The length of the region. -/
  size : Nat
  /-- The chips, in the order in which they are put in their places. -/
  entries : List RomEntry
deriving DecidableEq, Inhabited

/-- An assembled region. -/
structure RomImage where
  /-- The bytes of the region; zero where there is no chip. -/
  data : ByteArray
  /-- The checksum of each chip, in the order of the entries. -/
  checksums : List UInt32

/-- The chips have the checksums that the region lists. -/
def RomImage.isListed (r : RomImage) (region : RomRegion) : Bool :=
  r.checksums == region.entries.map (·.crc)

namespace RomRegion

/-- Puts the chip of one entry in its place. -/
def place (verify : Bool) (set : RomSet) (r : RomImage) (e : RomEntry) : Except RomError RomImage := do
  let chip ← set.requireSized e.name e.size
  let crc := Crc32.checksum chip
  if verify && crc != e.crc then throw (.checksumMismatch e.name e.crc crc)
  return { data := Bytes.overwrite r.data e.offset chip, checksums := r.checksums ++ [crc] }

/-- Assembles the region, up to the first entry that fails. -/
def assemble (region : RomRegion) (verify : Bool) (set : RomSet) : Except RomError RomImage :=
  region.entries.foldlM (place verify set) { data := Bytes.zeros region.size, checksums := [] }

/-- Assembles the region from chips with the listed checksums. -/
def loadStrict (region : RomRegion) (set : RomSet) : Except RomError RomImage :=
  region.assemble true set

/-- Assembles the region from chips of the right lengths. -/
def load (region : RomRegion) (set : RomSet) : Except RomError RomImage :=
  region.assemble false set

/-- Assembles the region from the images of its chips in the order of the entries. They go by the
names of the entries, so of two entries with one name both get the later image. -/
def loadImages (region : RomRegion) (images : List ByteArray) : Except RomError RomImage :=
  if images.length = region.entries.length then
    region.load (.ofList ((region.entries.map (·.name)).zip images))
  else
    throw (.missingFile ((region.entries[images.length]?.map (·.name)).getD "<extra image>"))

end RomRegion

end Cabinet
