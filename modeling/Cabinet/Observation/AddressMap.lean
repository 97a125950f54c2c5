import Cabinet.Rom.Program
/-!
# Address maps

Where a program keeps the state of its game differs from one revision to the next. An address map
gives the places for one revision, which is known by the checksums of its chips.
-/

namespace Cabinet

/-- Where the position of a shot is kept. -/
structure ShotAddresses where
  /-- The address of its column. -/
  x : UInt16
  /-- The address of its row. -/
  y : UInt16
deriving DecidableEq, Inhabited

/-- Where the state of the game is kept. -/
structure AddressMap where
  /-- The name of the program. -/
  name : String
  /-- The checksums of its chips. -/
  checksums : List UInt32
  /-- Two low decimal digits of the score. -/
  scoreLow : UInt16
  /-- Two high decimal digits of the score. -/
  scoreHigh : UInt16
  /-- Ships besides the one in play. -/
  reserveShips : UInt16
  /-- Whether a ship is in play. -/
  playerAlive : UInt16
  /-- Column of the ship. -/
  playerX : UInt16
  /-- Row of the ship. -/
  playerY : UInt16
  /-- The first of the flags of the aliens. -/
  alienGrid : UInt16
  /-- Number of aliens left. -/
  alienCount : UInt16
  /-- State of the player's shot. -/
  shotStatus : UInt16
  /-- The player's shot. -/
  playerShot : ShotAddresses
  /-- The rolling shot. -/
  rollingShot : ShotAddresses
  /-- The plunger shot. -/
  plungerShot : ShotAddresses
  /-- The squiggly shot. -/
  squigglyShot : ShotAddresses
  /-- Whether the saucer flies. -/
  ufoActive : UInt16
  /-- Column of the saucer. -/
  ufoX : UInt16
  /-- Row of the saucer. -/
  ufoY : UInt16
deriving DecidableEq, Inhabited

namespace AddressMap

/-- The release of 1978. -/
def midway : AddressMap where
  name := "invaders"
  checksums := [0x734F5AD8, 0x6BFACA4A, 0x0CCEAD96, 0x14E538B0]
  scoreLow := 0x20F8
  scoreHigh := 0x20F9
  reserveShips := 0x21FF
  playerAlive := 0x20E7
  playerX := 0x201B
  playerY := 0x201A
  alienGrid := 0x2100
  alienCount := 0x2082
  shotStatus := 0x2025
  playerShot := ⟨0x202A, 0x2029⟩
  rollingShot := ⟨0x203E, 0x203D⟩
  plungerShot := ⟨0x204E, 0x204D⟩
  squigglyShot := ⟨0x205E, 0x205D⟩
  ufoActive := 0x2084
  ufoX := 0x207C
  ufoY := 0x207B

/-- The chips of the release are those that the layout of the program lists. -/
theorem checksums_midway : midway.checksums = programRom.entries.map (·.crc) := rfl

/-- The revisions that are known. -/
def known : List AddressMap := [midway]

/-- The map of the program whose chips have these checksums. -/
def ofChecksums? (checksums : List UInt32) : Option AddressMap :=
  known.find? (·.checksums == checksums)

/-- There is a map for the chips that the layout of the program lists, and for no others. -/
theorem ofChecksums?_eq (checksums : List UInt32) :
    ofChecksums? checksums =
      if checksums = programRom.entries.map (·.crc) then some midway else none := by
  rw [ofChecksums?, known, List.find?_singleton, checksums_midway]
  simp only [beq_iff_eq, eq_comm (a := checksums)]

end AddressMap

end Cabinet
