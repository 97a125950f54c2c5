import Cabinet.Archive.Inflate
import Cabinet.Bytes.Little
/-!
# Tables of states

A stream of symbols is written from its last bit to its first (`Backward`). A reader is in a state, which
is a cell of a table: the cell gives a symbol, and how many bits are to be read and what is to be added
to them to get the next state. A table is made from the shares that the symbols have in it
(`Table.ofShares`), and is written in as few bits as the shares that are left admit (`shares?`).
-/

namespace Cabinet.Zstd

/-! ### Bits from the end -/

/-- Bytes that are read from the highest bit of the last byte down. -/
structure Backward where
  /-- The bytes. -/
  bytes : ByteArray
  /-- The number of bits that are left. -/
  left : Nat

namespace Backward

/-- All bits of bytes below the highest one that is set in the last byte. -/
def ofBytes? (b : ByteArray) : Option Backward :=
  let last := (Bytes.get b (b.size - 1)).toNat
  if b.size = 0 ∨ last = 0 then none
  else some { bytes := b, left := 8 * (b.size - 1) + last.log2 }

/-- The number in `n` bits from position `i` on. -/
def value (b : ByteArray) (i n : Nat) : Nat :=
  (Little.decode b (n / 8 + 2) (i / 8) >>> (i % 8)) % (1 <<< n)

/-- The number in the next `n` bits; bits that are not there are zero. -/
def peek (r : Backward) (n : Nat) : Nat :=
  if n ≤ r.left then value r.bytes (r.left - n) n else value r.bytes 0 r.left <<< (n - r.left)

/-- Passes over `n` bits. -/
def skip? (r : Backward) (n : Nat) : Option Backward :=
  if n ≤ r.left then some { r with left := r.left - n } else none

/-- Reads `n` bits. -/
def take? (r : Backward) (n : Nat) : Option (Nat × Backward) := (r.skip? n).map (r.peek n, ·)

end Backward

/-! ### Tables -/

/-- A state of a reader. -/
structure Cell where
  /-- The symbol that it stands for. -/
  symbol : Nat
  /-- How many bits lead to the next state. -/
  bits : Nat
  /-- What is added to them. -/
  base : Nat
deriving Inhabited

/-- The states of a reader. -/
structure Table where
  /-- The number of bits of a state. -/
  log : Nat
  /-- The states. -/
  cells : Array Cell

namespace Table

/-- The table in which there is one symbol alone. -/
def single (symbol : Nat) : Table := { log := 0, cells := #[{ symbol, bits := 0, base := 0 }] }

/-- The symbols of the cells. A share below one gets a cell at the end, the others are spread over the
rest in wide steps. -/
def spread (log : Nat) (shares : List Int) : Array Nat :=
  let size := 1 <<< log
  let small := (shares.zipIdx.filter (·.1 < 0)).map (·.2)
  let large := shares.zipIdx.flatMap fun (n, i) => List.replicate n.toNat i
  let step := (size >>> 1) + (size >>> 3) + 3
  let free := ((List.range size).map fun i => i * step % size).filter (· + small.length < size)
  let places := small.zipIdx.map (fun (s, i) => (size - 1 - i, s)) ++ free.zip large
  places.foldl (fun a (i, s) => a.setIfInBounds i s) (Array.replicate size 0)

/-- The table of `1 <<< log` cells in which symbols have the given shares. -/
def ofShares (log : Nat) (shares : List Int) : Table :=
  let count := (shares.map fun n => if n < 0 then 1 else n.toNat).toArray
  let (cells, _) := (spread log shares).foldl
    (fun (s : Array Cell × Array Nat) symbol =>
      let next := s.2.getD symbol 1
      let bits := log - next.log2
      (s.1.push { symbol, bits, base := (next <<< bits) - (1 <<< log) }, s.2.modify symbol (· + 1)))
    (#[], count)
  { log, cells }

/-- The cell of a state. -/
def cell (t : Table) (state : Nat) : Cell := t.cells.getD state default

/-- Reads the first state. -/
def start? (t : Table) (r : Backward) : Option (Nat × Backward) := r.take? t.log

/-- Reads the state after a state. -/
def next? (t : Table) (state : Nat) (r : Backward) : Option (Nat × Backward) := do
  let c := t.cell state
  let (n, r) ← r.take? c.bits
  return (c.base + n, r)

end Table

/-! ### Reading tables -/

/-- Reads how many further symbols have no share: numbers up to three, each of which goes on with the
next if it is three; `fuel` bounds how many. -/
def zeroShares (b : ByteArray) : Nat → Nat → Option (Nat × Nat)
  | 0, _ => none
  | fuel + 1, p => do
    let (n, p) ← Inflate.bits b 2 p
    if n < 3 then return (n, p)
    let (more, p) ← zeroShares b fuel p
    return (3 + more, p)

/-- Reads the shares of at most `fuel` symbols, which together are `left`. -/
def shares? (b : ByteArray) : Nat → Nat → Nat → Option (List Int × Nat)
  | fuel, left, p =>
    if left = 0 then some ([], p)
    else
      match fuel with
      | 0 => none
      | fuel + 1 => do
        let bits := (left + 1).log2
        let short := (2 <<< bits) - 1 - (left + 1)
        let (low, p) ← Inflate.bits b bits p
        let (v, p) ←
          if low < short then some (low, p)
          else do
            let (high, p) ← Inflate.bits b 1 p
            some (if high = 0 then low else low + (1 <<< bits) - short, p)
        let (zeros, p) ← if v = 1 then zeroShares b fuel p else some (0, p)
        let used := if v = 0 then 1 else v - 1
        if left < used ∨ fuel < zeros then none
        let (rest, p) ← shares? b (fuel - zeros) (left - used) p
        return (((v : Int) - 1) :: (List.replicate zeros 0 ++ rest), p)
termination_by fuel => fuel

/-- Reads a table of at most `symbols` symbols and `1 <<< most` cells at a byte; gives the byte behind
it. -/
def table? (b : ByteArray) (symbols most p : Nat) : Option (Table × Nat) := do
  let (n, q) ← Inflate.bits b 4 (8 * p)
  let log := n + 5
  if most < log then none
  let (shares, q) ← shares? b symbols (1 <<< log) q
  return (Table.ofShares log shares, (q + 7) / 8)

end Cabinet.Zstd
