import Cabinet.Settings
/-!
# Binary formats of numbers

A binary format holds numbers of a fixed precision, with exponents from a least one up. `round` gives
the number of a format that is nearest to a quotient, of two equally near ones that with the even last
digit, and infinity beyond the greatest. The numbers of a format are counted from zero up by their
bits, so a carry out of the fraction is a step of the exponent.
-/

namespace Cabinet

/-- A binary format. -/
structure BinaryFormat where
  /-- The number of binary digits. -/
  precision : Nat
  /-- The least numbers are multiples of two to the minus this. -/
  scale : Nat
  /-- The bits of infinity. -/
  infinity : Nat

namespace BinaryFormat

/-- The format of thirty-two bits. -/
def single : BinaryFormat := { precision := 24, scale := 149, infinity := 0x7F800000 }

/-- The format of sixty-four bits. -/
def double : BinaryFormat := { precision := 53, scale := 1074, infinity := 0x7FF0000000000000 }

/-- The nearest integer to a quotient; of two the even one. -/
def nearest (num den : Nat) : Nat :=
  let q := num / den
  let r := num % den
  if 2 * r < den ∨ (2 * r = den ∧ q % 2 = 0) then q else q + 1

/-- How many times a quotient is halved until it has no more digits than the precision. -/
def shift (f : BinaryFormat) (num den : Nat) : Nat :=
  let n := (num <<< f.scale) / den
  if n = 0 then 0 else n.log2 + 1 - f.precision

/-- The bits of the number nearest to a quotient. -/
def round (f : BinaryFormat) (num den : Nat) : Nat :=
  let e := f.shift num den
  min f.infinity ((e <<< (f.precision - 1)) + nearest (num <<< f.scale) (den <<< e))

/-- The multiple of the least number that finite bits stand for. -/
def multiple (f : BinaryFormat) (bits : Nat) : Nat :=
  let e := bits >>> (f.precision - 1)
  let hidden := 1 <<< (f.precision - 1)
  let fraction := bits % hidden
  if e = 0 then fraction else (fraction + hidden) <<< (e - 1)

end BinaryFormat

/-- A number of the format of sixty-four bits, or no number. -/
inductive Double where
  /-- A finite number or infinity: its sign and its bits without the sign. -/
  | number (negative : Bool) (bits : Nat)
  /-- No number. -/
  | nan (negative : Bool)
deriving DecidableEq, Inhabited

namespace Speed

/-- The speed of a sign and the other bits. -/
def ofBits (negative : Bool) (bits : Nat) : Speed :=
  ⟨UInt32.ofNat (if negative then bits + 0x80000000 else bits)⟩

/-- The speed nearest to an integer. -/
def ofInt (n : Int) : Speed := ofBits (n < 0) (BinaryFormat.single.round n.natAbs 1)

/-- The speed nearest to a number. -/
def ofDouble : Double → Speed
  | .nan negative => ofBits negative 0x7FC00000
  | .number negative bits =>
    if bits = BinaryFormat.double.infinity then ofBits negative BinaryFormat.single.infinity
    else
      ofBits negative
        (BinaryFormat.single.round (BinaryFormat.double.multiple bits)
          (1 <<< BinaryFormat.double.scale))

end Speed

end Cabinet
