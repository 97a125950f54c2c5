/-!
# Hexadecimal notation

Numbers in messages are written in upper-case hexadecimal digits, as many as their width needs.
-/

namespace Cabinet.Text

/-- The upper-case digit of a number below sixteen. -/
def hexDigit (n : Nat) : Char := Char.ofNat (if n < 10 then 48 + n else 55 + n)

/-- The `width` lowest hexadecimal digits of a number, highest first. -/
def hexDigits : Nat → Nat → List Char
  | 0, _ => []
  | width + 1, n => hexDigits width (n / 16) ++ [hexDigit (n % 16)]

/-- A byte in two digits. -/
def hexByte (b : UInt8) : String := String.ofList (hexDigits 2 b.toNat)

/-- An address in four digits. -/
def hexWord (w : UInt16) : String := String.ofList (hexDigits 4 w.toNat)

/-- A checksum in eight digits. -/
def hexLong (w : UInt32) : String := String.ofList (hexDigits 8 w.toNat)

/-- A list in brackets. -/
def bracketed (items : List String) : String := "[" ++ ", ".intercalate items ++ "]"

end Cabinet.Text
