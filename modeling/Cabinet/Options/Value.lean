import Cabinet.Play.Schedule
import Cabinet.Settings
import Cabinet.Text.Blank
import Cabinet.Text.Numeral
/-!
# Values of options

The values that options take: a byte, decimal or hexadecimal; the bytes of the three switches, divided
by commas; and a change of the buttons, a frame and a byte divided by a colon. Blanks around a number
are ignored.
-/

namespace Cabinet

/-- Why the text of a value is refused. -/
inductive ValueError where
  /-- A part is no number that is wanted. -/
  | number (text : String) (fault : Text.Numeral.Fault)
  /-- There are not three bytes. -/
  | byteCount (actual : Nat)
  /-- There is no colon. -/
  | noColon (text : String)
deriving DecidableEq, Inhabited

/-- The wording of the reason. -/
def ValueError.message : ValueError → String
  | .number text fault => s!"\x27{text}\x27: {fault.message}"
  | .byteCount actual => s!"expected 3 bytes, got {actual}"
  | .noColon text => s!"\x27{text}\x27: expected FRAME:BITS"

namespace Value

open Text

/-- Reads a number, and names a text in the reason if it is refused. -/
def number (base limit : Nat) (digits shown : List Char) : Except ValueError Nat :=
  match Numeral.read base limit digits with
  | .ok n => .ok n
  | .error fault => .error (.number (String.ofList shown) fault)

/-- Reads a byte: a decimal number, or a hexadecimal one behind its mark. -/
def byte (text : List Char) : Except ValueError UInt8 :=
  let shown := trim text
  match shown with
  | '0' :: 'x' :: digits | '0' :: 'X' :: digits => UInt8.ofNat <$> number 16 255 digits shown
  | digits => UInt8.ofNat <$> number 10 255 digits shown

/-- The parts of a text between the commas. -/
def commaParts : List Char → List (List Char)
  | [] => [[]]
  | c :: cs =>
    if c = ',' then [] :: commaParts cs
    else
      match commaParts cs with
      | part :: parts => (c :: part) :: parts
      | [] => [[c]]

/-- Reads the switches. A part that is no byte is reported before a wrong number of parts. -/
def dips (text : List Char) : Except ValueError Dips := do
  match ← (commaParts text).mapM byte with
  | [a, b, c] => return ⟨a, b, c⟩
  | bytes => throw (.byteCount bytes.length)

/-- Reads a change of the buttons. The frame comes before the first colon. -/
def inputEvent (text : List Char) : Except ValueError InputEvent :=
  let before := text.takeWhile (· != ':')
  match text.dropWhile (· != ':') with
  | _ :: bits => do
    let frame ← number 10 (UInt64.size - 1) (trim before) before
    return { frame := UInt64.ofNat frame, bits := ← byte bits }
  | [] => throw (.noColon (String.ofList text))

end Value

end Cabinet
