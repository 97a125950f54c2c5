import Cabinet.Toml.Scan
/-!
# Dates and times

A date, a time of day, or a date with a time of day and perhaps the distance of its zone. What is read
is checked and dropped.
-/

namespace Cabinet.Toml

/-- Reads a number of `n` digits within bounds. -/
def boundedNumber (n low high : Nat) : Scanner Nat := fun cs => do
  let (ds, cs) ← exactDigits isDecimal n cs
  let v := numberOf 10 ds
  if low ≤ v ∧ v ≤ high then return (v, cs) else none

/-- Reads one character. -/
def expect (c : Char) : List Char → Option (List Char)
  | d :: cs => if c = d then some cs else none
  | [] => none

/-- The number of days of a month. -/
def daysOf (year month : Nat) : Nat :=
  match month with
  | 2 => if year % 4 = 0 ∧ (year % 100 ≠ 0 ∨ year % 400 = 0) then 29 else 28
  | 4 | 6 | 9 | 11 => 30
  | _ => 31

/-- Reads a date. -/
def date (cs : List Char) : Option (List Char) := do
  let (year, cs) ← boundedNumber 4 0 9999 cs
  let cs ← expect '-' cs
  let (month, cs) ← boundedNumber 2 1 12 cs
  let cs ← expect '-' cs
  let (_, cs) ← boundedNumber 2 1 (daysOf year month) cs
  return cs

/-- Reads a fraction of a second, if a point comes. -/
def secondFraction : List Char → Option (List Char)
  | '.' :: c :: cs => if isDecimal c then some (cs.dropWhile isDecimal) else none
  | ['.'] => none
  | cs => some cs

/-- Reads a time of day. -/
def timeOfDay (cs : List Char) : Option (List Char) := do
  let (_, cs) ← boundedNumber 2 0 23 cs
  let cs ← expect ':' cs
  let (_, cs) ← boundedNumber 2 0 59 cs
  let cs ← expect ':' cs
  let (_, cs) ← boundedNumber 2 0 60 cs
  secondFraction cs

/-- Reads the distance of a zone, if there is one. -/
def zone : List Char → Option (List Char)
  | 'Z' :: cs | 'z' :: cs => some cs
  | '+' :: cs | '-' :: cs => do
    let (_, cs) ← boundedNumber 2 0 23 cs
    let cs ← expect ':' cs
    let (_, cs) ← boundedNumber 2 0 59 cs
    return cs
  | cs => some cs

/-- Reads the time of day behind a date, if there is one. -/
def timeBehindDate : List Char → Option (List Char)
  | 'T' :: cs | 't' :: cs => timeOfDay cs >>= zone
  | ' ' :: c :: cs => if isDecimal c then timeOfDay (c :: cs) >>= zone else some (' ' :: c :: cs)
  | cs => some cs

/-- Reads a date or a time of day. -/
def moment (cs : List Char) : Option (List Char) :=
  match date cs with
  | some cs => timeBehindDate cs
  | none => timeOfDay cs

end Cabinet.Toml
