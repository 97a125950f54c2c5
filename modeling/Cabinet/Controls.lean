/-!
# Controls

The buttons and coin switch of the cabinet set bits of a latch that the processor reads. Bit 3 of the
latch is wired high and bit 7 is not connected.
-/

namespace Cabinet

/-- A button, or the coin switch. -/
inductive Button where
  | coin | secondStart | firstStart | fire | left | right
deriving DecidableEq, Inhabited

namespace Button

/-- The buttons in the order in which they are offered to a player. -/
def all : List Button := [.coin, .firstStart, .secondStart, .fire, .left, .right]

/-- The number by which a button is known. -/
def id : Button → UInt8
  | .coin => 0
  | .secondStart => 1
  | .firstStart => 2
  | .fire => 3
  | .left => 4
  | .right => 5

/-- The name by which a button is shown. -/
def label : Button → String
  | .coin => "Coin"
  | .firstStart => "P1 Start"
  | .secondStart => "P2 Start"
  | .fire => "P1 Fire"
  | .left => "P1 Left"
  | .right => "P1 Right"

/-- The bit of the latch that a button sets. -/
def bit : Button → UInt8
  | .coin => 0x01
  | .secondStart => 0x02
  | .firstStart => 0x04
  | .fire => 0x10
  | .left => 0x20
  | .right => 0x40

/-- The button of a number. -/
def ofId? (n : UInt8) : Option Button := all.find? (·.id == n)

theorem ofId?_id (b : Button) : ofId? b.id = some b := by cases b <;> rfl

end Button

/-- The latch that the processor reads. -/
structure Latch where
  /-- The bits, those of the buttons set while they are pressed. -/
  bits : UInt8
deriving DecidableEq, Inhabited

namespace Latch

/-- The latch with no button pressed. -/
def idle : Latch := ⟨0x08⟩

/-- The latch that shows the given bits of the buttons. -/
def ofBits (v : UInt8) : Latch := ⟨(v &&& 0x77) ||| 0x08⟩

/-- Presses or releases a button. -/
def set (latch : Latch) (b : Button) (pressed : Bool) : Latch :=
  ofBits (if pressed then latch.bits ||| b.bit else latch.bits &&& ~~~b.bit)

end Latch

end Cabinet
