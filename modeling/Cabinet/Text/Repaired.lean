/-!
# Repaired text

Bytes that ought to be a text of Unicode are read from the first one on. As many bytes as begin a
character, but are not followed by what belongs to it, become one replacement character; so does every
byte that begins none.
-/

namespace Cabinet.Text

/-- What stands for bytes that are no character. -/
def replacement : Char := '\ufffd'

/-- A character whose first bytes are read. -/
structure Begun where
  /-- The bits of the bytes so far. -/
  value : Nat
  /-- How many bytes follow the next one. -/
  later : Nat
  /-- The least next byte. -/
  low : UInt8
  /-- The greatest next byte. -/
  high : UInt8

/-- Reads a byte between two characters. -/
def beginChar (b : UInt8) : List Char × Option Begun :=
  let begun := fun later low high =>
    ([], some { value := b.toNat % (64 >>> later), later, low, high })
  if b < 0x80 then ([Char.ofNat b.toNat], none)
  else if b < 0xC2 then ([replacement], none)
  else if b < 0xE0 then begun 0 0x80 0xBF
  else if b = 0xE0 then begun 1 0xA0 0xBF
  else if b = 0xED then begun 1 0x80 0x9F
  else if b < 0xF0 then begun 1 0x80 0xBF
  else if b = 0xF0 then begun 2 0x90 0xBF
  else if b < 0xF4 then begun 2 0x80 0xBF
  else if b = 0xF4 then begun 2 0x80 0x8F
  else ([replacement], none)

/-- Reads a byte within a character; one that does not belong to it begins anew. -/
def Begun.step (c : Begun) (b : UInt8) : List Char × Option Begun :=
  if c.low ≤ b ∧ b ≤ c.high then
    let value := 64 * c.value + b.toNat % 64
    match c.later with
    | 0 => ([Char.ofNat value], none)
    | later + 1 => ([], some { value, later, low := 0x80, high := 0xBF })
  else
    let (out, next) := beginChar b
    (replacement :: out, next)

/-- The characters of bytes, the first of which may go on with a character. -/
def repair : Option Begun → List UInt8 → List Char
  | none, [] => []
  | some _, [] => [replacement]
  | none, b :: bs => (beginChar b).1 ++ repair (beginChar b).2 bs
  | some c, b :: bs => (c.step b).1 ++ repair (c.step b).2 bs

/-- The repaired text of bytes. -/
def repaired (bytes : List UInt8) : String := String.ofList (repair none bytes)

end Cabinet.Text
