/-!
# Unsigned numerals

A numeral is digits in some base, after an optional plus sign. Reading goes from left to right and
stops at the first fault: a character that is no digit, or a digit that takes the value past the
greatest number admitted.
-/

namespace Cabinet.Text.Numeral

/-- Why a text is not read as a numeral. -/
inductive Fault where
  /-- There is no text. -/
  | empty
  /-- A character is no digit, or nothing follows the sign. -/
  | invalidDigit
  /-- The value is greater than the greatest number admitted. -/
  | tooLarge
deriving DecidableEq, Inhabited

/-- The wording of a fault. -/
def Fault.message : Fault → String
  | .empty => "cannot parse integer from empty string"
  | .invalidDigit => "invalid digit found in string"
  | .tooLarge => "number too large to fit in target type"

/-- The value of a letter or figure as a digit of the base, which is at most 36. -/
def digit? (base : Nat) (c : Char) : Option Nat :=
  let n := c.toNat
  let v? :=
    if 48 ≤ n ∧ n ≤ 57 then some (n - 48)
    else if 65 ≤ n ∧ n ≤ 90 then some (n - 55)
    else if 97 ≤ n ∧ n ≤ 122 then some (n - 87)
    else none
  v?.filter (· < base)

/-- Reads the remaining digits, `value` being that of the digits read. -/
def readDigits (base limit : Nat) : Nat → List Char → Except Fault Nat
  | value, [] => .ok value
  | value, c :: cs =>
    match digit? base c with
    | none => .error .invalidDigit
    | some d =>
      if value * base + d ≤ limit then readDigits base limit (value * base + d) cs
      else .error .tooLarge

/-- Reads a numeral of at most `limit`. -/
def read (base limit : Nat) : List Char → Except Fault Nat
  | [] => .error .empty
  | ['+'] => .error .invalidDigit
  | '+' :: cs => readDigits base limit 0 cs
  | cs => readDigits base limit 0 cs

end Cabinet.Text.Numeral
