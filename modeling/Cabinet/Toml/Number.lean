import Cabinet.Toml.Scan
import Cabinet.Toml.Value
/-!
# Numbers

Integers are decimal with a sign or hexadecimal, octal or binary without one, and have to fit in
sixty-four bits. Numbers with a fraction or an exponent become the nearest numbers of the binary format
of sixty-four bits; one that is too great is refused, one that is too far below zero is infinite.
-/

namespace Cabinet.Toml

/-- The least integer above those that fit. -/
def integerBound : Int := 0x8000000000000000

/-- The bits of a decimal number nearest to it: digits, to be multiplied by a power of ten. The
exponent is cut where the number is surely zero or infinite. -/
def decimalBits (digits : List Char) (exponent : Int) : Nat :=
  let n := numberOf 10 digits
  let magnitude := exponent + digits.length
  if n = 0 ∨ magnitude < -400 then 0
  else if 400 + (digits.length : Int) < magnitude then BinaryFormat.double.infinity
  else
    BinaryFormat.double.round (n * Nat.pow 10 exponent.toNat) (Nat.pow 10 (-exponent).toNat)

/-- Reads a sign. -/
def sign : List Char → Option Bool × List Char
  | '-' :: cs => (some true, cs)
  | '+' :: cs => (some false, cs)
  | cs => (none, cs)

/-- Reads the digits in front of a point: a zero stands alone. -/
def wholeDigits : Scanner (List Char)
  | '0' :: cs => some (['0'], cs)
  | cs => digits isDecimal cs

/-- Reads a fraction, if a point comes. -/
def fraction : Scanner (List Char)
  | '.' :: cs => digits isDecimal cs
  | cs => some ([], cs)

/-- Reads an exponent, if its mark comes. -/
def exponent : Scanner (Option Int)
  | 'e' :: cs | 'E' :: cs => do
    let (negative?, cs) := sign cs
    let (ds, cs) ← digits isDecimal cs
    let n : Int := numberOf 10 ds
    return (some (if negative? = some true then -n else n), cs)
  | cs => some (none, cs)

/-- Reads a decimal number behind its sign. -/
def decimal (negative : Bool) : Scanner Value := fun cs => do
  let (whole, cs) ← wholeDigits cs
  let (part, cs) ← fraction cs
  let (power, cs) ← exponent cs
  if part.isEmpty ∧ power.isNone then
    let n : Int := numberOf 10 whole
    let n := if negative then -n else n
    if -integerBound ≤ n ∧ n < integerBound then return (.integer n, cs) else none
  else
    let bits := decimalBits (whole ++ part) (power.getD 0 - part.length)
    if bits = BinaryFormat.double.infinity ∧ negative = false then none
    else return (.float (.number negative bits), cs)

/-- Reads an integer behind the mark of its base. -/
def based (base : Nat) (isDigit : Char → Bool) : Scanner Value := fun cs => do
  let (ds, cs) ← digits isDigit cs
  let n : Int := numberOf base ds
  if n < integerBound then return (.integer n, cs) else none

/-- Reads a number. -/
def number : Scanner Value
  | '0' :: 'x' :: cs => based 16 isHexadecimal cs
  | '0' :: 'o' :: cs => based 8 (fun c => '0' ≤ c && c ≤ '7') cs
  | '0' :: 'b' :: cs => based 2 (fun c => c == '0' || c == '1') cs
  | cs =>
    let (negative?, cs) := sign cs
    let negative := negative?.getD false
    match cs with
    | 'i' :: 'n' :: 'f' :: cs =>
      some (.float (.number negative BinaryFormat.double.infinity), cs)
    | 'n' :: 'a' :: 'n' :: cs => some (.float (.nan negative), cs)
    | cs => decimal negative cs

end Cabinet.Toml
