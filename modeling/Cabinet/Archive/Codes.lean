/-!
# Codes of varying lengths

Symbols are written as codes of varying lengths, of which none begins another. The codes are canonical:
they are given by their lengths alone, and codes of one length follow each other in the order of their
symbols. Bits are read one by one from where they lie (`Codes.read`).
-/

namespace Cabinet

/-- The codes of symbols. -/
structure Codes where
  /-- How many codes of each length there are, from length one up. -/
  counts : List Nat
  /-- The symbols in the order of their codes. -/
  symbols : Array Nat

namespace Codes

/-- The lengths up to a greatest one. -/
def sizes (greatest : Nat) : List Nat := (List.range greatest).map (· + 1)

/-- The symbols whose codes have a length. -/
def symbolsOf (lengths : List Nat) (size : Nat) : List Nat :=
  lengths.zipIdx.filterMap fun (l, i) => if l = size then some i else none

/-- The codes of the given lengths, none of which is above the greatest; length zero is no code. -/
def ofLengths (greatest : Nat) (lengths : List Nat) : Codes :=
  { counts := (sizes greatest).map lengths.count
    symbols := ((sizes greatest).flatMap (symbolsOf lengths)).toArray }

/-- How many texts of the greatest length begin with a code of the given lengths. -/
def covered (greatest : Nat) (lengths : List Nat) : Nat :=
  (sizes greatest).foldl (fun n size => 2 * n + lengths.count size) 0

/-- The codes of the given lengths, which have to leave no text of the greatest length over. -/
def full? (greatest : Nat) (lengths : List Nat) : Option Codes :=
  if covered greatest lengths = 1 <<< greatest then some (ofLengths greatest lengths) else none

/-- Reads a code: `code` are the bits read so far, `first` the first code of the next length and
`index` the number of shorter codes. -/
def readFrom (bit : Nat → Option Nat) (symbols : Array Nat) :
    List Nat → Nat → Nat → Nat → Nat → Option (Nat × Nat)
  | [], _, _, _, _ => none
  | count :: counts, code, first, index, p => do
    let code := 2 * code + (← bit p)
    if code < first + count then
      if first ≤ code then symbols[index + (code - first)]?.map (·, p + 1) else none
    else readFrom bit symbols counts code (2 * (first + count)) (index + count) (p + 1)

/-- Reads the symbol whose code begins at a position, and gives the position behind the code. -/
def read (c : Codes) (bit : Nat → Option Nat) (p : Nat) : Option (Nat × Nat) :=
  readFrom bit c.symbols c.counts 0 0 0 p

end Codes

end Cabinet
