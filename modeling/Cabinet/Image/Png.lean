import Cabinet.Bytes
import Cabinet.Crc32
/-!
# Portable network graphics

A picture file is a signature and chunks: a header, the lines of the picture in a stream of compressed
data, and an end. The stream is written in blocks of bytes as they are, with a checksum of its own
behind them.
-/

namespace Cabinet.Png

/-- The bytes with which a file begins. -/
def signature : List UInt8 := [0x89, 0x50, 0x4E, 0x47, 0x0D, 0x0A, 0x1A, 0x0A]

/-- A number in `width` bytes, the highest first. -/
def bigEndian : Nat → Nat → List UInt8
  | 0, _ => []
  | width + 1, n => bigEndian width (n / 256) ++ [UInt8.ofNat n]

/-- A chunk: the number of its bytes, its kind, the bytes, and the checksum of kind and bytes. -/
def chunk (kind : List UInt8) (data : ByteArray) : ByteArray :=
  let body := Bytes.ofList kind ++ data
  Bytes.ofList (bigEndian 4 data.size) ++ body ++
    Bytes.ofList (bigEndian 4 (Crc32.checksum body).toNat)

/-- The header of a picture with three colour values of eight bits for each pixel. -/
def header (width height : Nat) : ByteArray :=
  Bytes.ofList (bigEndian 4 width ++ bigEndian 4 height ++ [8, 2, 0, 0, 0])

/-- The lines of a picture, each behind a byte that says that it is stored as it is. -/
def scanlines (width height : Nat) (rgb : ByteArray) : ByteArray :=
  Bytes.ofFn (height * (3 * width + 1)) fun i =>
    let column := i % (3 * width + 1)
    if column = 0 then 0 else Bytes.get rgb (i / (3 * width + 1) * (3 * width) + (column - 1))

/-- The modulus of the checksum of a stream. -/
def adlerModulus : Nat := 65521

/-- The checksum of a stream: the sum of its bytes, below the sum of those sums. -/
def adler (b : ByteArray) : Nat :=
  let (low, high) := b.data.foldl (fun (low, high) x =>
    let low := (low + x.toNat) % adlerModulus
    (low, (high + low) % adlerModulus)) (1, 0)
  high * 65536 + low

/-- The greatest number of bytes of a block. -/
def blockSize : Nat := 65535

/-- The head of a block of bytes as they are. -/
def blockHead (last : Bool) (size : Nat) : List UInt8 :=
  let complement := 65535 - size
  [if last then 1 else 0, UInt8.ofNat size, UInt8.ofNat (size / 256), UInt8.ofNat complement,
    UInt8.ofNat (complement / 256)]

/-- The blocks of the bytes from a position on. -/
def blocks (b : ByteArray) (start : Nat) : ByteArray :=
  if start + blockSize < b.size then
    Bytes.ofList (blockHead false blockSize) ++ b.extract start (start + blockSize) ++
      blocks b (start + blockSize)
  else Bytes.ofList (blockHead true (b.size - start)) ++ b.extract start b.size
termination_by b.size - start
decreasing_by
  simp only [blockSize] at *
  omega

/-- The stream of some bytes. -/
def stream (b : ByteArray) : ByteArray :=
  Bytes.ofList [0x78, 0x01] ++ blocks b 0 ++ Bytes.ofList (bigEndian 4 (adler b))

/-- The file of a picture. -/
def encode (width height : Nat) (rgb : ByteArray) : ByteArray :=
  Bytes.ofList signature ++ chunk [0x49, 0x48, 0x44, 0x52] (header width height) ++
    chunk [0x49, 0x44, 0x41, 0x54] (stream (scanlines width height rgb)) ++
    chunk [0x49, 0x45, 0x4E, 0x44] ByteArray.empty

end Cabinet.Png
