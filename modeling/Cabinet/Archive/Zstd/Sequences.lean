import Cabinet.Archive.Zstd.Table
/-!
# Sequences

A sequence says how many literals are taken, and how many bytes are then copied from how far back. The
three numbers are written as symbols with further bits, for each of which there is a table of states.
Three distances that were used last have short forms (`Recent`).
-/

namespace Cabinet.Zstd

/-! ### Numbers -/

/-- A kind of number: how it is written. -/
structure Field where
  /-- The least number of each symbol, and how many bits are added to it. -/
  bases : Array (Nat × Nat)
  /-- The greatest number of bits of a state. -/
  log : Nat
  /-- The table that counts if none is given. -/
  table : Table

/-- The numbers of literals. -/
def literalField : Field := {
  bases := (Array.range 16).map (·, 0) ++ #[
    (16, 1), (18, 1), (20, 1), (22, 1), (24, 2), (28, 2), (32, 3), (40, 3), (48, 4), (64, 6), (128, 7),
    (256, 8), (512, 9), (1024, 10), (2048, 11), (4096, 12), (8192, 13), (16384, 14), (32768, 15),
    (65536, 16)]
  log := 9
  table := Table.ofShares 6 [
    4, 3, 2, 2, 2, 2, 2, 2, 2, 2, 2, 2, 2, 1, 1, 1, 2, 2, 2, 2, 2, 2, 2, 2, 2, 3, 2, 1, 1, 1, 1, 1,
    -1, -1, -1, -1] }

/-- The distances of copies, before short forms are told apart. -/
def distanceField : Field := {
  bases := (Array.range 32).map fun n => (1 <<< n, n)
  log := 8
  table := Table.ofShares 5 [
    1, 1, 1, 1, 1, 1, 2, 2, 2, 1, 1, 1, 1, 1, 1, 1, 1, 1, 1, 1, 1, 1, 1, 1, -1, -1, -1, -1, -1] }

/-- The lengths of copies. -/
def lengthField : Field := {
  bases := (Array.range 32).map (fun n => (n + 3, 0)) ++ #[
    (35, 1), (37, 1), (39, 1), (41, 1), (43, 2), (47, 2), (51, 3), (59, 3), (67, 4), (83, 4), (99, 5),
    (131, 7), (259, 8), (515, 9), (1027, 10), (2051, 11), (4099, 12), (8195, 13), (16387, 14),
    (32771, 15), (65539, 16)]
  log := 9
  table := Table.ofShares 6 [
    1, 4, 3, 2, 2, 2, 2, 2, 2, 1, 1, 1, 1, 1, 1, 1, 1, 1, 1, 1, 1, 1, 1, 1, 1, 1, 1, 1, 1, 1, 1, 1,
    1, 1, 1, 1, 1, 1, 1, 1, 1, 1, 1, 1, 1, 1, -1, -1, -1, -1, -1, -1, -1] }

/-- Reads the table of a field at a byte, in one of four modes; gives the byte behind it. -/
def Field.table? (f : Field) (b : ByteArray) (previous : Option Table) (mode p : Nat) :
    Option (Table × Nat) :=
  match mode with
  | 0 => some (f.table, p)
  | 1 =>
    let symbol := (Bytes.get b p).toNat
    if p < b.size ∧ symbol < f.bases.size then some (Table.single symbol, p + 1) else none
  | 2 => Zstd.table? b f.bases.size f.log p
  | _ => previous.map (·, p)

/-- Reads the number of a symbol. -/
def Field.number? (f : Field) (symbol : Nat) (r : Backward) : Option (Nat × Backward) := do
  let (base, bits) ← f.bases[symbol]?
  let (n, r) ← r.take? bits
  return (base + n, r)

/-! ### Distances -/

/-- The distances that were used last, the last one first. -/
structure Recent where
  /-- The last distance. -/
  first : Nat := 1
  /-- The one before. -/
  second : Nat := 4
  /-- The one before that. -/
  third : Nat := 8

/-- The distance that a number stands for, and the distances used last after it; if there are no
literals, the short forms stand for the next ones each. -/
def Recent.distance (r : Recent) (n literals : Nat) : Nat × Recent :=
  if 3 < n then (n - 3, { first := n - 3, second := r.first, third := r.second })
  else
    match if literals = 0 then n + 1 else n with
    | 1 => (r.first, r)
    | 2 => (r.second, { r with first := r.second, second := r.first })
    | 3 => (r.third, { first := r.third, second := r.first, third := r.second })
    | _ => (r.first - 1, { first := r.first - 1, second := r.first, third := r.second })

/-! ### Sections -/

/-- The tables of the three fields. -/
structure Tables where
  /-- The table for numbers of literals. -/
  literals : Table
  /-- The table for distances. -/
  distances : Table
  /-- The table for lengths. -/
  lengths : Table

/-- What is written out as sequences are read. -/
structure Progress where
  /-- The bytes. -/
  out : ByteArray
  /-- How many literals are taken. -/
  taken : Nat := 0
  /-- The distances used last. -/
  recent : Recent

/-- Carries out a sequence. -/
def Progress.step? (s : Progress) (literals : ByteArray) (count number length : Nat) :
    Option Progress := do
  let (distance, recent) := s.recent.distance number count
  let out := s.out ++ literals.extract s.taken (s.taken + count)
  if literals.size < s.taken + count ∨ distance = 0 ∨ out.size < distance then none
  return { out := Inflate.copy distance length out, taken := s.taken + count, recent }

/-- Reads `n` sequences in given states, and carries them out. -/
def sequences? (t : Tables) (literals : ByteArray) :
    Nat → Nat × Nat × Nat → Backward → Progress → Option (Backward × Progress)
  | 0, _, r, s => some (r, s)
  | n + 1, (a, d, l), r, s => do
    let (number, r) ← distanceField.number? (t.distances.cell d).symbol r
    let (length, r) ← lengthField.number? (t.lengths.cell l).symbol r
    let (count, r) ← literalField.number? (t.literals.cell a).symbol r
    let s ← s.step? literals count number length
    if n = 0 then return (r, s)
    let (a, r) ← t.literals.next? a r
    let (l, r) ← t.lengths.next? l r
    let (d, r) ← t.distances.next? d r
    sequences? t literals n (a, d, l) r s

/-- Reads how many sequences there are at a byte; gives the byte behind the number. -/
def sequenceCount (b : ByteArray) (p : Nat) : Nat × Nat :=
  let head := (Bytes.get b p).toNat
  if head < 128 then (head, p + 1)
  else if head < 255 then ((head - 128) * 256 + (Bytes.get b (p + 1)).toNat, p + 2)
  else (Little.decode b 2 (p + 1) + 0x7F00, p + 3)

/-- Reads the sequences of a block at a byte, and carries them out; the literals that are left come
last. -/
def section? (b : ByteArray) (p : Nat) (literals : ByteArray) (previous : Option Tables) (s : Progress) :
    Option (Option Tables × Progress) := do
  if b.size ≤ p then none
  let (count, p) := sequenceCount b p
  let (tables, s) ←
    if count = 0 then
      if p = b.size then some (previous, s) else none
    else do
      let modes := (Bytes.get b p).toNat
      if modes % 4 ≠ 0 then none
      let (literalTable, p) ←
        literalField.table? b (previous.map (·.literals)) (modes / 64) (p + 1)
      let (distances, p) ←
        distanceField.table? b (previous.map (·.distances)) (modes / 16 % 4) p
      let (lengths, p) ← lengthField.table? b (previous.map (·.lengths)) (modes / 4 % 4) p
      let t : Tables := { literals := literalTable, distances, lengths }
      let r ← Backward.ofBytes? (b.extract p b.size)
      let (a, r) ← t.literals.start? r
      let (d, r) ← t.distances.start? r
      let (l, r) ← t.lengths.start? r
      let (r, s) ← sequences? t literals count (a, d, l) r s
      if r.left = 0 then some (some t, s) else none
  return (tables, { s with out := s.out ++ literals.extract s.taken literals.size })

end Cabinet.Zstd
