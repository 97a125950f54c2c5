import Cabinet.Observation.AddressMap
/-!
# Observations

What can be seen of a game through an address map: a snapshot of the bytes that the map names, decoded,
with the number of frames run and whether the processor is halted. A snapshot reads nothing else.
-/

namespace Cabinet

/-- Where a shot is. -/
structure Shot where
  /-- The shot flies. -/
  active : Bool
  /-- Its column. -/
  x : UInt8
  /-- Its row. -/
  y : UInt8
deriving DecidableEq, Inhabited

/-- The state of a game. -/
structure Observation where
  /-- The score. -/
  score : UInt32
  /-- The ships left, the one in play included. -/
  lives : UInt32
  /-- The game is over. -/
  gameOver : Bool
  /-- An estimate of the level from the time played. -/
  level : UInt32
  /-- Column of the ship. -/
  playerX : UInt8
  /-- Row of the ship. -/
  playerY : UInt8
  /-- A ship is in play. -/
  playerAlive : Bool
  /-- A flag for each alien. -/
  alienGrid : List UInt8
  /-- Number of aliens left. -/
  alienCount : UInt8
  /-- State of the player's shot. -/
  shotStatus : UInt8
  /-- The player's shot. -/
  playerShot : Shot
  /-- The rolling shot. -/
  rollingShot : Shot
  /-- The plunger shot. -/
  plungerShot : Shot
  /-- The squiggly shot. -/
  squigglyShot : Shot
  /-- The saucer. -/
  ufo : Shot
deriving DecidableEq, Inhabited

namespace Observation

/-- The number of aliens: five rows of eleven. -/
def alienSlots : Nat := 55

/-- More ships than this there never are. -/
def maxLives : UInt32 := 6

/-- The frames that one level is taken to last. -/
def framesPerLevel : UInt64 := 3600

/-- The number that two packed decimal digits stand for. -/
def packedDecimal (b : UInt8) : UInt32 := (b >>> 4).toUInt32 * 10 + (b &&& 0x0F).toUInt32

/-- The ships left. A number of ships that there never are is no number of ships. -/
def livesOf (reserve : UInt8) (alive : Bool) : UInt32 :=
  let lives := reserve.toUInt32 + (if alive then 1 else 0)
  if maxLives < lives then 0 else lives

/-- The level after so many frames, as far as it is counted. -/
def levelOf (frames : UInt64) : UInt32 :=
  UInt32.ofNat (min (UInt32.size - 1) ((frames / framesPerLevel).toNat + 1))

/-- A shot flies if its row is not zero. -/
def shot (byteAt : UInt16 → UInt8) (places : ShotAddresses) : Shot :=
  let y := byteAt places.y
  { active := y != 0, x := byteAt places.x, y }

/-- The saucer, at no place while it does not fly. -/
def saucer (map : AddressMap) (byteAt : UInt16 → UInt8) : Shot :=
  if byteAt map.ufoActive = 0 then { active := false, x := 0, y := 0 }
  else { active := true, x := byteAt map.ufoX, y := byteAt map.ufoY }

/-- What the map shows of memory. -/
def take (map : AddressMap) (byteAt : UInt16 → UInt8) (halted : Bool) (frames : UInt64) :
    Observation :=
  let reserve := byteAt map.reserveShips
  let alive := byteAt map.playerAlive != 0
  { score := packedDecimal (byteAt map.scoreHigh) * 100 + packedDecimal (byteAt map.scoreLow)
    lives := livesOf reserve alive
    gameOver := halted || (!alive && reserve == 0)
    level := levelOf frames
    playerX := byteAt map.playerX
    playerY := byteAt map.playerY
    playerAlive := alive
    alienGrid := (List.range alienSlots).map fun i => byteAt (map.alienGrid + UInt16.ofNat i)
    alienCount := byteAt map.alienCount
    shotStatus := byteAt map.shotStatus
    playerShot := shot byteAt map.playerShot
    rollingShot := shot byteAt map.rollingShot
    plungerShot := shot byteAt map.plungerShot
    squigglyShot := shot byteAt map.squigglyShot
    ufo := saucer map byteAt }

/-- Why nothing can be observed: no map is known for a program with these checksums. -/
structure UnknownRevision where
  /-- The checksums of the chips. -/
  checksums : List UInt32
deriving DecidableEq, Inhabited

/-- The wording of the reason. -/
def UnknownRevision.message (e : UnknownRevision) : String :=
  s!"no RAM address map for program ROM with CRC32s {Text.bracketed (e.checksums.map Text.hexLong)}"

end Observation

end Cabinet
