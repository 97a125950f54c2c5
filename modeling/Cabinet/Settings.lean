/-!
# Settings

What can be set on a machine: three banks of switches, and how its owner paces it. The machine only
keeps the pacing; the speed is a number in the binary format of thirty-two bits and is compared as
one, so the two zeros are equal and no value that is not a number equals itself (`Speed.agrees`).
-/

namespace Cabinet

/-- A multiple of the true speed, in the binary format of thirty-two bits. -/
structure Speed where
  /-- Sign, exponent and fraction. -/
  bits : UInt32
deriving DecidableEq, Inhabited

namespace Speed

/-- True speed. -/
def one : Speed := ⟨0x3F800000⟩

/-- Speed zero. -/
def zero : Speed := ⟨0⟩

/-- The bits other than the sign. -/
def magnitude (s : Speed) : UInt32 := s.bits &&& 0x7FFFFFFF

/-- One of the two zeros. -/
def isZero (s : Speed) : Bool := s.magnitude == 0

/-- No number. -/
def isNaN (s : Speed) : Bool := 0x7F800000 < s.magnitude

/-- Equality of numbers. -/
def agrees (s t : Speed) : Bool := !s.isNaN && !t.isNaN && (s == t || s.isZero && t.isZero)

end Speed

/-- The three banks of switches. The processor reads the first and the third. -/
structure Dips where
  /-- The bank at port 0. -/
  first : UInt8
  /-- The bank that no port reads. -/
  second : UInt8
  /-- The bank at port 2. -/
  third : UInt8
deriving DecidableEq, Inhabited

/-- Three ships, an extra ship at 1500 points, and the coin notice shown. -/
def Dips.factory : Dips := ⟨0x0E, 0x08, 0x00⟩

/-- How the machine is meant to be paced. -/
structure Pacing where
  /-- Nobody watches. -/
  headless : Bool
  /-- The multiple of true speed. -/
  speed : Speed
  /-- No limit of speed. -/
  uncapped : Bool
deriving DecidableEq, Inhabited

/-- The settings of a machine. -/
structure Settings where
  /-- How it is paced. -/
  pacing : Pacing
  /-- Its switches. -/
  dips : Dips
deriving DecidableEq, Inhabited

namespace Settings

/-- For somebody who plays: true speed, and the switches as they leave the factory. -/
def standard : Settings where
  pacing := { headless := false, speed := .one, uncapped := false }
  dips := .factory

/-- For nobody: without a limit of speed. -/
def headless (dips : Option Dips) : Settings where
  pacing := { headless := true, speed := .zero, uncapped := true }
  dips := dips.getD .factory

end Settings

end Cabinet
