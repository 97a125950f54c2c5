import Cabinet.Archive.Codes
import Cabinet.Bytes
/-!
# Inflating

Compressed data is a row of bits, the lowest bit of a byte first, in blocks. A block is bytes as they
are, or codes for bytes and for copies of earlier output. There are two formats, which differ in how
long copies may be and from how far they may come (`Copies`).
-/

namespace Cabinet.Inflate

/-! ### Bits -/

/-- The bit at a position. -/
@[inline] def bitAt (b : ByteArray) (p : Nat) : Nat := (Bytes.get b (p / 8)).toNat >>> (p % 8) % 2

/-- The bit at a position, if there is one. -/
def bit? (b : ByteArray) (p : Nat) : Option Nat := if p < 8 * b.size then some (bitAt b p) else none

/-- The number in `n` bits from a position on, lowest bit first, and the position behind them. -/
def bits (b : ByteArray) (n p : Nat) : Option (Nat × Nat) :=
  if p + n ≤ 8 * b.size then
    some ((List.range n).foldr (fun i v => bitAt b (p + i) + 2 * v) 0, p + n)
  else none

/-! ### Codes -/

/-- The greatest length of a code. -/
def mostBits : Nat := 15

/-- The codes of the given lengths. There may be none, or a single one of one bit; otherwise they have
to be used up. -/
def codes? (lengths : List Nat) : Option Codes :=
  match lengths.filter (0 < ·) with
  | [] | [1] => some (Codes.ofLengths mostBits lengths)
  | _ => Codes.full? mostBits lengths

/-! ### Copies -/

/-- What the codes for copies stand for. -/
structure Copies where
  /-- The least lengths of copies, and how many bits are added to them. -/
  lengths : Array (Nat × Nat)
  /-- The least distances of copies, and how many bits are added to them. -/
  distances : Array (Nat × Nat)

/-- Copies of up to 258 bytes from up to 32768 bytes back. -/
def Copies.near : Copies := {
  lengths := #[
    (3, 0), (4, 0), (5, 0), (6, 0), (7, 0), (8, 0), (9, 0), (10, 0), (11, 1), (13, 1), (15, 1),
    (17, 1), (19, 2), (23, 2), (27, 2), (31, 2), (35, 3), (43, 3), (51, 3), (59, 3), (67, 4), (83, 4),
    (99, 4), (115, 4), (131, 5), (163, 5), (195, 5), (227, 5), (258, 0)]
  distances := #[
    (1, 0), (2, 0), (3, 0), (4, 0), (5, 1), (7, 1), (9, 2), (13, 2), (17, 3), (25, 3), (33, 4),
    (49, 4), (65, 5), (97, 5), (129, 6), (193, 6), (257, 7), (385, 7), (513, 8), (769, 8), (1025, 9),
    (1537, 9), (2049, 10), (3073, 10), (4097, 11), (6145, 11), (8193, 12), (12289, 12), (16385, 13),
    (24577, 13)] }

/-- Copies of up to 65538 bytes from up to 65536 bytes back. -/
def Copies.far : Copies := {
  lengths := Copies.near.lengths.pop.push (3, 16)
  distances := Copies.near.distances ++ #[(32769, 14), (49153, 14)] }

/-- Reads the bits added to a base. -/
def extended (table : Array (Nat × Nat)) (b : ByteArray) (symbol p : Nat) : Option (Nat × Nat) := do
  let (base, n) ← table[symbol]?
  let (more, p) ← bits b n p
  return (base + more, p)

/-- Copies earlier output, which may reach into the copy itself. In front of the output are zeros. -/
def copy (distance : Nat) : Nat → ByteArray → ByteArray
  | 0, out => out
  | n + 1, out =>
    let b := if distance ≤ out.size then Bytes.get out (out.size - distance) else 0
    copy distance n (out.push b)

/-! ### Blocks -/

/-- Reads the codes of a block up to its end. -/
def codedBlock (c : Copies) (lengthCodes distanceCodes : Codes) (b : ByteArray) (p : Nat)
    (out : ByteArray) : Option (ByteArray × Nat) := do
  let (symbol, q) ← lengthCodes.read (bit? b) p
  if symbol = 256 then return (out, q)
  let (out, q) ←
    if symbol < 256 then some (out.push (UInt8.ofNat symbol), q)
    else do
      let (length, q) ← extended c.lengths b (symbol - 257) q
      let (code, q) ← distanceCodes.read (bit? b) q
      let (distance, q) ← extended c.distances b code q
      some (copy distance length out, q)
  if p < q ∧ q ≤ 8 * b.size then codedBlock c lengthCodes distanceCodes b q out else none
termination_by 8 * b.size - p

/-- The lengths of the codes of a block that brings none. -/
def fixedLengths : List Nat :=
  List.replicate 144 8 ++ List.replicate 112 9 ++ List.replicate 24 7 ++ List.replicate 8 8

/-- The order in which the lengths of the codes for lengths come. -/
def lengthOrder : List Nat := [16, 17, 18, 0, 8, 7, 9, 6, 10, 5, 11, 4, 12, 3, 13, 2, 14, 1, 15]

/-- Reads `n` numbers of three bits. -/
def threeBits (b : ByteArray) : Nat → Nat → Option (List Nat × Nat)
  | 0, p => some ([], p)
  | n + 1, p => do
    let (v, p) ← bits b 3 p
    let (vs, p) ← threeBits b n p
    return (v :: vs, p)

/-- Reads lengths of codes until there are `total`, which repetitions may not exceed. -/
def codeLengths (codes : Codes) (b : ByteArray) (total : Nat) (lengths : Array Nat) (p : Nat) :
    Option (List Nat × Nat) := do
  if lengths.size = total then return (lengths.toList, p)
  let (symbol, q) ← codes.read (bit? b) p
  let (value, count, q) ←
    match symbol with
    | 16 => do
      let previous ← lengths.back?
      let (n, q) ← bits b 2 q
      some (previous, n + 3, q)
    | 17 => do let (n, q) ← bits b 3 q; some (0, n + 3, q)
    | 18 => do let (n, q) ← bits b 7 q; some (0, n + 11, q)
    | length => some (length, 1, q)
  let lengths := lengths ++ Array.replicate count value
  if lengths.size ≤ total ∧ p < q ∧ q ≤ 8 * b.size then codeLengths codes b total lengths q else none
termination_by 8 * b.size - p

/-- Reads the codes that a block brings. -/
def blockCodes (c : Copies) (b : ByteArray) (p : Nat) : Option (Codes × Codes × Nat) := do
  let (literals, p) ← bits b 5 p
  let (distances, p) ← bits b 5 p
  let (count, p) ← bits b 4 p
  if c.lengths.size < literals ∨ c.distances.size < distances + 1 then none
  let (short, p) ← threeBits b (count + 4) p
  let order := (List.range 19).map fun i => (((lengthOrder.zip short).lookup i)).getD 0
  let codes ← Codes.full? mostBits order
  let (lengths, p) ← codeLengths codes b (literals + distances + 258) #[] p
  let lengthCodes ← codes? (lengths.take (literals + 257))
  let distanceCodes ← codes? (lengths.drop (literals + 257))
  return (lengthCodes, distanceCodes, p)

/-- Reads a block of bytes as they are, which begins at a whole byte. -/
def plainBlock (b : ByteArray) (p : Nat) (out : ByteArray) : Option (ByteArray × Nat) := do
  let start := (p + 7) / 8
  let (length, p) ← bits b 16 (8 * start)
  let (complement, _) ← bits b 16 p
  if length + complement ≠ 0xFFFF ∨ b.size < start + 4 + length then none
  return (out ++ b.extract (start + 4) (start + 4 + length), 8 * (start + 4 + length))

/-- Reads blocks up to the last one. -/
def blocks (c : Copies) (b : ByteArray) (p : Nat) (out : ByteArray) : Option ByteArray := do
  let (last, q) ← bits b 1 p
  let (kind, q) ← bits b 2 q
  let (out, q) ←
    match kind with
    | 0 => plainBlock b q out
    | 1 => do
      codedBlock c (← codes? fixedLengths) (← codes? (List.replicate 32 5)) b q out
    | 2 => do
      let (lengthCodes, distanceCodes, q) ← blockCodes c b q
      codedBlock c lengthCodes distanceCodes b q out
    | _ => none
  if last = 1 then return out
  else if p < q ∧ q ≤ 8 * b.size then blocks c b q out
  else none
termination_by 8 * b.size - p

/-- The data that compressed data with near copies stand for. -/
def inflate (b : ByteArray) : Option ByteArray := blocks .near b 0 ByteArray.empty

/-- The data that compressed data with far copies stand for. -/
def inflateFar (b : ByteArray) : Option ByteArray := blocks .far b 0 ByteArray.empty

end Cabinet.Inflate
