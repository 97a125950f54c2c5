import Cabinet.Archive.Codes
import Cabinet.Bytes
/-!
# Sorted blocks

Compressed data is a row of bits, the highest bit of a byte first, in blocks. The bytes of a block are
written in steps: long runs are shortened, the bytes are sorted by what follows them in the block, each
is replaced by how many others came up since it last did, and the numbers are written as codes. Reading
undoes the steps from the last one on. Each block has a checksum, and so have all together.
-/

namespace Cabinet.Bzip2

/-! ### Checksums -/

/-- The polynomial of the checksum, whose highest bit comes first. -/
def generator : UInt32 := 0x04C11DB7

/-- The checksum after one more bit. -/
def shift (crc : UInt32) : UInt32 :=
  if crc &&& 0x80000000 = 0 then crc <<< 1 else (crc <<< 1) ^^^ generator

/-- The checksum after one more byte. -/
def step (crc : UInt32) (b : UInt8) : UInt32 :=
  (List.range 8).foldl (fun c _ => shift c) (crc ^^^ (b.toUInt32 <<< 24))

/-- The checksum of bytes. -/
def checksum (bytes : ByteArray) : UInt32 := ~~~(bytes.data.foldl step 0xFFFFFFFF)

/-- The checksum of several blocks with one block more. -/
def combine (all crc : UInt32) : UInt32 := ((all <<< 1) ||| (all >>> 31)) ^^^ crc

/-! ### Runs -/

/-- Bytes whose runs are written out as far as they are read. -/
structure Runs where
  /-- The bytes. -/
  out : ByteArray := ByteArray.empty
  /-- The last byte. -/
  last : UInt8 := 0
  /-- How often it came up in a row, at most four times. -/
  count : Nat := 0

/-- Reads a byte: after four equal ones it says how many more of them there are. -/
def Runs.step (r : Runs) (b : UInt8) : Runs :=
  if r.count = 4 then { r with out := r.out ++ ⟨Array.replicate b.toNat r.last⟩, count := 0 }
  else
    let count := if r.last = b then r.count + 1 else 1
    { out := r.out.push b, last := b, count := if r.count = 0 then 1 else count }

/-! ### Sorting -/

/-- Where the bytes with each value begin among all bytes in order. -/
def starts (bytes : ByteArray) : Array Nat :=
  let counts := bytes.data.foldl (fun c b => c.modify b.toNat (· + 1)) (Array.replicate 256 0)
  (counts.foldl (fun (s : Array Nat × Nat) n => (s.1.push s.2, s.2 + n)) (#[], 0)).1

/-- For each place of a sorted block the place of the next byte. -/
def links (sorted : ByteArray) : Array Nat :=
  let step := fun (s : Array Nat × Array Nat × Nat) (b : UInt8) =>
    let (links, next, i) := s
    (links.setIfInBounds (next.getD b.toNat 0) i, next.modify b.toNat (· + 1), i + 1)
  (sorted.data.foldl step (Array.replicate sorted.size 0, starts sorted, 0)).1

/-- Reads `n` bytes of a sorted block along the links. -/
def walk (sorted : ByteArray) (links : Array Nat) : Nat → Nat → Runs → Runs
  | 0, _, r => r
  | n + 1, p, r => walk sorted links n (links.getD p 0) (r.step (Bytes.get sorted p))

/-- The bytes of a sorted block, which begin behind a place. -/
def unsorted (sorted : ByteArray) (origin : Nat) : ByteArray :=
  let links := links sorted
  (walk sorted links sorted.size (links.getD origin 0) {}).out

/-! ### Recency -/

/-- A sorted block as far as it is read. -/
structure Column where
  /-- The bytes. -/
  out : ByteArray := ByteArray.empty
  /-- The values that come up, the one that came up last in front. -/
  recent : List UInt8
  /-- How often the value in front comes up again. -/
  run : Nat := 0
  /-- What the next numeral of that count is worth. -/
  weight : Nat := 1

/-- Writes out the value in front as often as it comes up again. -/
def Column.flush (c : Column) : Column :=
  { c with out := c.out ++ ⟨Array.replicate c.run (c.recent.headD 0)⟩, run := 0, weight := 1 }

/-- Reads a symbol: a numeral of a count, or the place of a value. There are at most `limit` bytes. -/
def Column.step? (limit : Nat) (c : Column) (symbol : Nat) : Option Column :=
  if symbol ≤ 1 then
    let run := c.run + c.weight * (symbol + 1)
    if c.out.size + run ≤ limit then some { c with run, weight := 2 * c.weight } else none
  else do
    let c := c.flush
    let b ← c.recent[symbol - 1]?
    if c.out.size < limit then
      return { c with out := c.out.push b, recent := b :: c.recent.eraseIdx (symbol - 1) }
    else none

/-! ### Bits -/

/-- Reading bits of bytes from a position on, which may fail. -/
abbrev BitM := ReaderT ByteArray (StateT Nat Option)

namespace BitM

/-- The bit at a position, if there is one. -/
def bit? (b : ByteArray) (p : Nat) : Option Nat :=
  if p < 8 * b.size then some ((Bytes.get b (p / 8)).toNat >>> (7 - p % 8) % 2) else none

/-- Reads the symbol of a code. -/
def symbol (codes : Codes) : BitM Nat := fun b p => codes.read (bit? b) p

/-- Reads a bit. -/
def bit : BitM Nat := fun b p => (bit? b p).map (·, p + 1)

/-- Reads a number of `n` bits, the highest first. -/
def number (n : Nat) : BitM Nat := (List.range n).foldlM (fun v _ => return 2 * v + (← bit)) 0

/-- Reads ones up to a zero; they are fewer than `limit`. -/
def ones : Nat → BitM Nat
  | 0 => failure
  | limit + 1 => do
    if (← bit) = 0 then return 0
    return (← ones limit) + 1

/-- Reads which of sixteen things there are. -/
def sixteen : BitM (List Nat) :=
  (List.range 16).filterM fun _ => return (← bit) == 1

end BitM

open BitM

/-! ### Blocks -/

/-- The greatest length of a code. -/
def mostBits : Nat := 20

/-- Reads the values that come up in a block: first the rows of sixteen in which one does. -/
def values : BitM (List UInt8) := do
  let rows ← sixteen
  let columns ← rows.mapM fun row => do return (← sixteen).map fun i => UInt8.ofNat (16 * row + i)
  return columns.flatten

/-- Reads the length of a code by how it differs from the one before; `fuel` bounds the steps. -/
def codeLength : Nat → Nat → BitM Nat
  | 0, _ => failure
  | fuel + 1, n => do
    if n < 1 ∨ mostBits < n then failure
    if (← bit) = 0 then return n
    codeLength fuel (if (← bit) = 0 then n + 1 else n - 1)

/-- Reads codes of `n` symbols. -/
def codes (n : Nat) : BitM Codes := do
  let fuel := 8 * (← read).size
  let (lengths, _) ← (List.range n).foldlM
    (fun (s : List Nat × Nat) _ => do
      let length ← codeLength fuel s.2
      return (length :: s.1, length))
    ([], ← number 5)
  return Codes.ofLengths mostBits lengths.reverse

/-- Reads which of `groups` codes count in turn. -/
def selectors (groups n : Nat) : BitM (List Nat) := do
  let (chosen, _) ← (List.range n).foldlM
    (fun (s : List Nat × List Nat) _ => do
      let i ← ones groups
      let choice ← s.2[i]?
      return (choice :: s.1, choice :: s.2.eraseIdx i))
    ([], List.range groups)
  return chosen.reverse

/-- How many symbols are written with the same codes. -/
def groupSize : Nat := 50

/-- Reads up to `n` symbols, and says whether the last one was the end. -/
def group (codes : Codes) (ending limit : Nat) : Nat → Column → BitM (Bool × Column)
  | 0, c => return (false, c)
  | n + 1, c => do
    let s ← symbol codes
    if s = ending then return (true, c.flush)
    group codes ending limit n (← c.step? limit s)

/-- Reads a sorted block whose codes count in turn. -/
def column (ending limit : Nat) : List Codes → Column → BitM ByteArray
  | [], _ => failure
  | codes :: rest, c => do
    let (ended, c) ← group codes ending limit groupSize c
    if ended then return c.out else column ending limit rest c

/-- Reads a block of at most `limit` bytes behind its mark, with its checksum. -/
def block (limit : Nat) : BitM (ByteArray × UInt32) := do
  let crc := UInt32.ofNat (← number 32)
  if (← bit) = 1 then failure
  let origin ← number 24
  let values ← values
  if values.isEmpty then failure
  let groups ← number 3
  if groups < 2 ∨ 6 < groups then failure
  let count ← number 15
  let selectors ← selectors groups count
  let codes ← (List.range groups).mapM fun _ => codes (values.length + 2)
  let turns := selectors.filterMap fun i => codes[i]?
  let sorted ← column (values.length + 1) limit turns { recent := values }
  if sorted.size ≤ origin then failure
  let out := unsorted sorted origin
  if checksum out ≠ crc then failure
  return (out, crc)

/-- The mark at the start of a block. -/
def blockMark : Nat := 0x314159265359

/-- The mark behind the last block. -/
def endMark : Nat := 0x177245385090

/-- Reads blocks up to the end; `fuel` bounds their number. -/
def blocks (limit : Nat) : Nat → UInt32 → ByteArray → BitM ByteArray
  | 0, _, _ => failure
  | fuel + 1, all, out => do
    let mark ← number 48
    if mark = blockMark then
      let (bytes, crc) ← block limit
      blocks limit fuel (combine all crc) (out ++ bytes)
    else if mark = endMark ∧ (← number 32) = all.toNat then return out
    else failure

/-- Reads all blocks: a numeral in front says how many times a hundred thousand bytes they have at
most. -/
def stream : BitM ByteArray := do
  if (← number 24) ≠ 0x425A68 then failure
  let level ← number 8
  if level < 0x31 ∨ 0x39 < level then failure
  blocks (100000 * (level - 0x30)) (← read).size 0 ByteArray.empty

/-- The data that compressed data stand for. -/
def expand (b : ByteArray) : Option ByteArray := (stream b 0).map (·.1)

end Cabinet.Bzip2
