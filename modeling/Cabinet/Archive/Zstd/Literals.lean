import Cabinet.Archive.Zstd.Table
/-!
# Literals

The bytes of a block that are not copied are written together in front of it: as they are, as one byte
that is repeated, or as codes (`Huffman`). The codes are given by weights: a symbol with a weight that
is greater by one has a code that is shorter by one bit. The weight of the last symbol is the one that
makes the codes complete.
-/

namespace Cabinet.Zstd

/-- The symbols of codes. -/
structure Huffman where
  /-- The greatest length of a code. -/
  log : Nat
  /-- For each text of that length the symbol whose code it begins with, and the length of the code. -/
  cells : Array (UInt8 × Nat)

/-- The greatest length of a code. -/
def mostLog : Nat := 12

namespace Huffman

/-- The codes of symbols with the given weights, to which that of the last symbol is added. -/
def ofWeights? (weights : List Nat) : Option Huffman := do
  if weights.any (mostLog < ·) then none
  let used := weights.foldl (fun n w => n + (1 <<< w) / 2) 0
  if used = 0 then none
  let log := used.log2 + 1
  let left := (1 <<< log) - used
  let weights := weights ++ [left.log2 + 1]
  if 1 <<< left.log2 ≠ left ∨ mostLog < log ∨ weights.count 1 < 2 then none
  let cells := (List.range (log + 1)).flatMap fun w =>
    weights.zipIdx.flatMap fun (v, i) =>
      if v = w then List.replicate ((1 <<< w) / 2) (UInt8.ofNat i, log + 1 - w) else []
  return { log, cells := cells.toArray }

/-- Reads `n` symbols. -/
def symbols? (h : Huffman) : Nat → Backward → ByteArray → Option (Backward × ByteArray)
  | 0, r, out => some (r, out)
  | n + 1, r, out => do
    let (symbol, bits) ← h.cells[r.peek h.log]?
    symbols? h n (← r.skip? bits) (out.push symbol)

/-- Reads bytes that are `n` symbols and nothing else. -/
def stream? (h : Huffman) (b : ByteArray) (n : Nat) (out : ByteArray) : Option ByteArray := do
  let (r, out) ← h.symbols? n (← Backward.ofBytes? b) out
  if r.left = 0 then return out else none

end Huffman

/-! ### Weights -/

/-- Reads weights with two readers that take turns, until there are no bits left for the state after one
of them: then comes the symbol of the other. -/
def weights (t : Table) : Nat → Nat → Nat → Backward → Option (List Nat)
  | 0, _, _, _ => none
  | fuel + 1, state, other, r =>
    match t.next? state r with
    | some (state', r) => ((t.cell state).symbol :: ·) <$> weights t fuel other state' r
    | none => some [(t.cell state).symbol, (t.cell other).symbol]

/-- The greatest number of bits of a state of a reader of weights. -/
def weightLog : Nat := 6

/-- The greatest number of symbols with a weight. -/
def mostSymbols : Nat := 256

/-- Reads codes at a byte; gives the byte behind them. -/
def huffman? (b : ByteArray) (p : Nat) : Option (Huffman × Nat) := do
  let head := (Bytes.get b p).toNat
  if 128 ≤ head then
    let count := head - 127
    let weight := fun i =>
      let v := (Bytes.get b (p + 1 + i / 2)).toNat
      if i % 2 = 0 then v / 16 else v % 16
    return (← Huffman.ofWeights? ((List.range count).map weight), p + 1 + (count + 1) / 2)
  else
    let stop := p + 1 + head
    if b.size < stop then none
    let (t, q) ← table? (b.extract 0 stop) mostSymbols weightLog (p + 1)
    let r ← Backward.ofBytes? (b.extract q stop)
    let (one, r) ← t.start? r
    let (two, r) ← t.start? r
    return (← Huffman.ofWeights? (← weights t mostSymbols one two r), stop)

/-! ### Sections -/

/-- Reads `n` symbols from one or four streams of bytes; of four, all but the last have the same number
of symbols, and their lengths come first. -/
def streams? (h : Huffman) (four : Bool) (b : ByteArray) (n : Nat) : Option ByteArray :=
  if four then do
    let one := 6 + Little.decode b 2 0
    let two := one + Little.decode b 2 2
    let three := two + Little.decode b 2 4
    if b.size < three then none
    let quarter := (n + 3) / 4
    if n < 3 * quarter then none
    let out ← h.stream? (b.extract 6 one) quarter ByteArray.empty
    let out ← h.stream? (b.extract one two) quarter out
    let out ← h.stream? (b.extract two three) quarter out
    h.stream? (b.extract three b.size) (n - 3 * quarter) out
  else h.stream? b n ByteArray.empty

/-- Reads literals at the start of a block, with the codes of the block before; gives the codes for the
next block and the byte behind the literals. -/
def literals? (b : ByteArray) (codes : Option Huffman) : Option (ByteArray × Option Huffman × Nat) := do
  let head := (Bytes.get b 0).toNat
  let form := head / 4 % 4
  if head % 4 < 2 then
    let (size, p) :=
      if form % 2 = 0 then (head / 8, 1)
      else if form = 1 then (Little.decode b 2 0 / 16, 2)
      else (Little.decode b 3 0 / 16, 3)
    if head % 4 = 0 then
      if b.size < p + size then none
      return (b.extract p (p + size), codes, p + size)
    else
      if b.size < p + 1 then none
      return (⟨Array.replicate size (Bytes.get b p)⟩, codes, p + 1)
  else
    let (bits, p) := if form < 2 then (10, 3) else if form = 2 then (14, 4) else (18, 5)
    let numbers := Little.decode b p 0 / 16
    let size := numbers % (1 <<< bits)
    let stop := p + (numbers >>> bits) % (1 <<< bits)
    if b.size < stop then none
    let (h, q) ←
      if head % 4 = 2 then huffman? (b.extract 0 stop) p
      else codes.map (·, p)
    return (← streams? h (form ≠ 0) (b.extract q stop) size, some h, stop)

end Cabinet.Zstd
