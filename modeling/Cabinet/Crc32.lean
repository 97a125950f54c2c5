/-!
# Checksums

The cyclic redundancy check of thirty-two bits in its reflected form: the register starts with all
bits set, takes in each byte lowest bit first, and is complemented at the end. `shift` divides by the
generator one bit at a time; `step` takes in a whole byte by the table of eight shifts.
-/

namespace Cabinet.Crc32

/-- The generator, reflected. -/
def generator : UInt32 := 0xEDB88320

/-- Takes in one zero bit. -/
def shift (crc : UInt32) : UInt32 :=
  if crc &&& 1 = 1 then (crc >>> 1) ^^^ generator else crc >>> 1

/-- Takes in eight zero bits. -/
def shiftByte (crc : UInt32) : UInt32 :=
  shift (shift (shift (shift (shift (shift (shift (shift crc)))))))

/-- Eight shifts of each byte. -/
def table : Array UInt32 := Array.ofFn fun n : Fin 256 => shiftByte (UInt32.ofNat n)

@[simp] theorem size_table : table.size = 256 := by simp [table]

/-- Takes in one byte. -/
def step (crc : UInt32) (b : UInt8) : UInt32 :=
  let low := (crc ^^^ b.toUInt32).toUInt8
  have h : low.toNat < table.size := by simpa using low.toNat_lt
  (crc >>> 8) ^^^ table[low.toNat]

/-- The register after all bytes. -/
def update (crc : UInt32) (bytes : ByteArray) : UInt32 := bytes.data.foldl step crc

/-- The checksum of a byte string. -/
def checksum (bytes : ByteArray) : UInt32 := ~~~(update 0xFFFFFFFF bytes)

end Cabinet.Crc32
