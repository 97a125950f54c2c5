import Cabinet.Archive.Zstd.Literals
import Cabinet.Archive.Zstd.Sequences
/-!
# Frames

Compressed data is a row of frames, some of which are only passed over. A frame is a row of blocks: bytes
as they are, one byte that is repeated, or literals and sequences. It may end with a checksum.
-/

namespace Cabinet.Zstd

/-! ### Checksums -/

/-- The first of the odd numbers that the checksum multiplies with. -/
def prime1 : UInt64 := 0x9E3779B185EBCA87

/-- The second of the odd numbers that the checksum multiplies with. -/
def prime2 : UInt64 := 0xC2B2AE3D27D4EB4F

/-- The third of the odd numbers that the checksum multiplies with. -/
def prime3 : UInt64 := 0x165667B19E3779F9

/-- The fourth of the odd numbers that the checksum multiplies with. -/
def prime4 : UInt64 := 0x85EBCA77C2B2AE63

/-- The fifth of the odd numbers that the checksum multiplies with. -/
def prime5 : UInt64 := 0x27D4EB2F165667C5

/-- The bits of a word turned to the left. -/
def turn (x n : UInt64) : UInt64 := (x <<< n) ||| (x >>> (64 - n))

/-- A lane of the checksum after a word. -/
def lane (acc word : UInt64) : UInt64 := turn (acc + word * prime2) 31 * prime1

/-- The lanes after `n` rows of four words from position `p` on. -/
def lanes (b : ByteArray) : Nat → Nat → UInt64 × UInt64 × UInt64 × UInt64 →
    UInt64 × UInt64 × UInt64 × UInt64
  | 0, _, s => s
  | n + 1, p, (v1, v2, v3, v4) =>
    lanes b n (p + 32) (lane v1 (Little.word64 b p), lane v2 (Little.word64 b (p + 8)),
      lane v3 (Little.word64 b (p + 16)), lane v4 (Little.word64 b (p + 24)))

/-- The checksum after the bytes that do not fill a row. -/
def tail (b : ByteArray) (h : UInt64) : UInt64 :=
  let p := b.size / 32 * 32
  let words := b.size % 32 / 8
  let h := (List.range words).foldl
    (fun h i => turn (h ^^^ lane 0 (Little.word64 b (p + 8 * i))) 27 * prime1 + prime4) h
  let p := p + 8 * words
  let half := b.size % 8 / 4
  let h := if half = 0 then h
    else turn (h ^^^ ((Little.word32 b p).toUInt64 * prime1)) 23 * prime2 + prime3
  let p := p + 4 * half
  (List.range (b.size % 4)).foldl
    (fun h i => turn (h ^^^ ((Bytes.get b (p + i)).toUInt64 * prime5)) 11 * prime1) h

/-- The checksum of bytes. -/
def checksum (b : ByteArray) : UInt64 :=
  let h :=
    if b.size < 32 then prime5
    else
      let (v1, v2, v3, v4) := lanes b (b.size / 32) 0 (prime1 + prime2, prime2, 0, 0 - prime1)
      let merge := fun (h v : UInt64) => (h ^^^ lane 0 v) * prime1 + prime4
      merge (merge (merge (merge (turn v1 1 + turn v2 7 + turn v3 12 + turn v4 18) v1) v2) v3) v4
  let h := tail b (h + UInt64.ofNat b.size)
  let h := (h ^^^ (h >>> 33)) * prime2
  let h := (h ^^^ (h >>> 29)) * prime3
  h ^^^ (h >>> 32)

/-! ### Blocks -/

/-- What a block leaves for the next one. -/
structure State where
  /-- The codes of literals. -/
  codes : Option Huffman := none
  /-- The tables of sequences. -/
  tables : Option Tables := none
  /-- The distances used last. -/
  recent : Recent := {}
  /-- The bytes of the frame. -/
  out : ByteArray := ByteArray.empty

/-- Reads the bytes of a block with literals and sequences. -/
def State.block? (s : State) (b : ByteArray) : Option State := do
  if b.isEmpty then none
  let (literals, codes, p) ← literals? b s.codes
  let (tables, progress) ← section? b p literals s.tables { out := s.out, recent := s.recent }
  return { codes, tables, recent := progress.recent, out := progress.out }

/-- The greatest number of bytes of a block. -/
def mostBlock : Nat := 0x20000

/-- Reads blocks from a byte on up to the last one; gives the byte behind it. -/
def blocks? (b : ByteArray) (limit p : Nat) (s : State) : Option (ByteArray × Nat) := do
  let head := Little.decode b 3 p
  let size := head / 8
  if b.size < p + 3 ∨ limit < size then none
  let (s, q) ←
    match head / 2 % 4 with
    | 0 => some ({ s with out := s.out ++ b.extract (p + 3) (p + 3 + size) }, p + 3 + size)
    | 1 => some ({ s with out := s.out ++ ⟨Array.replicate size (Bytes.get b (p + 3))⟩ }, p + 4)
    | 2 => do
      let next ← s.block? (b.extract (p + 3) (p + 3 + size))
      if next.out.size ≤ s.out.size + limit then some (next, p + 3 + size) else none
    | _ => none
  if b.size < q then none
  if head % 2 = 1 then return (s.out, q)
  else if p < q ∧ q ≤ b.size then blocks? b limit q s
  else none
termination_by b.size - p

/-! ### Frames -/

/-- The mark at the start of a frame. -/
def frameMark : UInt32 := 0xFD2FB528

/-- The least of the sixteen marks at the start of a frame that is passed over. -/
def skippedMark : UInt32 := 0x184D2A50

/-- The greatest window of earlier bytes that is kept. -/
def mostWindow : Nat := 0x8000001

/-- What the head of a frame says. -/
structure Head where
  /-- How far copies may reach back. -/
  window : Nat
  /-- The number of bytes, if it is told. -/
  size : Option Nat
  /-- The frame ends with a checksum. -/
  hasChecksum : Bool
  /-- Where the blocks begin. -/
  start : Nat

/-- Reads the head of a frame, which begins behind its mark. -/
def head? (b : ByteArray) (p : Nat) : Option Head := do
  let head := (Bytes.get b p).toNat
  let single := head.testBit 5
  let windowByte := (Bytes.get b (p + 1)).toNat
  let window := (1 <<< (10 + windowByte / 8)) / 8 * (8 + windowByte % 8)
  let p := if single then p + 1 else p + 2
  let nameSize := #[0, 1, 2, 4].getD (head % 4) 0
  let sizeSize := #[if single then 1 else 0, 2, 4, 8].getD (head / 64) 0
  let size := Little.decode b sizeSize (p + nameSize) + if sizeSize = 2 then 256 else 0
  let start := p + nameSize + sizeSize
  if b.size < start ∨ head.testBit 3 ∨ Little.decode b nameSize p ≠ 0 then none
  let window := if single then size else window
  if mostWindow < window then none
  return {
    window, size := if sizeSize = 0 then none else some size, hasChecksum := head.testBit 2, start }

/-- Reads a frame; gives the byte behind it. -/
def frame? (b : ByteArray) (p : Nat) : Option (ByteArray × Nat) := do
  if (Little.word32 b p) &&& 0xFFFFFFF0 = skippedMark then
    return (ByteArray.empty, p + 8 + Little.decode b 4 (p + 4))
  if Little.word32 b p ≠ frameMark then none
  let head ← head? b (p + 4)
  let (out, q) ← blocks? b (min head.window mostBlock) head.start {}
  if head.size.any (· ≠ out.size) then none
  if head.hasChecksum then
    if Little.word32 b q ≠ (checksum out).toUInt32 then none
    return (out, q + 4)
  else return (out, q)

/-- Reads frames from a byte on up to the end. -/
def frames? (b : ByteArray) (p : Nat) (out : ByteArray) : Option ByteArray := do
  let (bytes, q) ← frame? b p
  let out := out ++ bytes
  if q = b.size then return out
  else if p < q ∧ q < b.size then frames? b q out
  else none
termination_by b.size - p

/-- The data that compressed data stand for. -/
def expand (b : ByteArray) : Option ByteArray := frames? b 0 ByteArray.empty

end Cabinet.Zstd
