import Cabinet.Play.Schedule
import Cabinet.Settings
import Cabinet.Toml.Document
/-!
# Configuration

A configuration has a section for the machine and one for the run. What is left out has its default.
Each record may be given as a table or as an array of its fields in their order; in the sections only
known fields are allowed.
-/

namespace Cabinet

/-- What a configuration says about the machine. -/
structure MachineSection where
  /-- How it is paced. -/
  pacing : Pacing := (Settings.headless none).pacing
  /-- Its switches. -/
  dips : Option Dips := none
deriving DecidableEq, Inhabited

/-- What a configuration says about the run. -/
structure RunSection where
  /-- The number of frames to run. -/
  frames : Option UInt64 := none
  /-- After how many frames to observe the game. -/
  reportEvery : Option UInt64 := none
  /-- Changes of the buttons. -/
  inputs : List InputEvent := []
deriving DecidableEq, Inhabited

/-- A configuration. -/
structure Configuration where
  /-- The machine. -/
  machine : MachineSection := {}
  /-- The run. -/
  run : RunSection := {}
deriving DecidableEq, Inhabited

/-- The settings that a configuration asks for. At speed zero there is no limit of speed. -/
def MachineSection.settings (s : MachineSection) : Settings where
  pacing := { s.pacing with uncapped := s.pacing.uncapped || s.pacing.speed.isZero }
  dips := s.dips.getD .factory

namespace Configuration

open Toml

/-! ### Reading values -/

/-- A truth value. -/
def boolean? : Value → Option Bool
  | .boolean b => some b
  | _ => none

/-- A number from zero up to `limit`. -/
def natural? (limit : Nat) : Value → Option Nat
  | .integer n => if 0 ≤ n ∧ n ≤ limit then some n.toNat else none
  | _ => none

/-- A number of frames. -/
def count? (v : Value) : Option UInt64 := UInt64.ofNat <$> natural? (UInt64.size - 1) v

/-- A byte. -/
def byte? (v : Value) : Option UInt8 := UInt8.ofNat <$> natural? 255 v

/-- A speed, whole or not. -/
def speed? : Value → Option Speed
  | .integer n => some (.ofInt n)
  | .float x => some (.ofDouble x)
  | _ => none

/-- The items of an array. -/
def items? : Value → Option (List Value)
  | .array vs => some vs
  | .tables ts => some (ts.map (.table .header))
  | _ => none

/-- The switches: the first three items. -/
def dips? (v : Value) : Option Dips := do
  match ← items? v with
  | a :: b :: c :: _ => return ⟨← byte? a, ← byte? b, ← byte? c⟩
  | _ => none

/-! ### Reading records -/

/-- The fields of a record with the given field names. -/
def fields? (names : List String) (v : Value) : Option Entries :=
  match v with
  | .table _ es => some es
  | v => names.zip <$> items? v

/-- The fields of a record that has no others. -/
def onlyFields? (names : List String) (v : Value) : Option Entries := do
  let es ← fields? names v
  if es.all fun e => names.contains e.1 then return es else none

/-- A field that may be left out. -/
def optional? {α : Type} (es : Entries) (name : String) (read : Value → Option α) :
    Option (Option α) :=
  match es.lookup name with
  | some v => some <$> read v
  | none => some none

/-- A change of the buttons. -/
def inputEvent? (v : Value) : Option InputEvent := do
  let es ← fields? ["frame", "bits"] v
  return { frame := ← count? (← es.lookup "frame"), bits := ← byte? (← es.lookup "bits") }

/-- The section of the machine. -/
def machine? (v : Value) : Option MachineSection := do
  let es ← onlyFields? ["headless", "speed", "uncapped", "dip_switches"] v
  let standard : MachineSection := {}
  let headless ← optional? es "headless" boolean?
  let speed ← optional? es "speed" speed?
  let uncapped ← optional? es "uncapped" boolean?
  let dips ← optional? es "dip_switches" dips?
  return {
    pacing := {
      headless := headless.getD standard.pacing.headless
      speed := speed.getD standard.pacing.speed
      uncapped := uncapped.getD standard.pacing.uncapped }
    dips }

/-- The section of the run. -/
def run? (v : Value) : Option RunSection := do
  let es ← onlyFields? ["frames", "report_every", "input"] v
  let inputs ← optional? es "input" fun v => do (← items? v).mapM inputEvent?
  return {
    frames := ← optional? es "frames" count?
    reportEvery := ← optional? es "report_every" count?
    inputs := inputs.getD [] }

/-- The configuration in a document. -/
def ofEntries? (es : Entries) : Option Configuration := do
  let es ← onlyFields? ["machine", "run"] (.table .header es)
  let machine ← optional? es "machine" machine?
  let run ← optional? es "run" run?
  return { machine := machine.getD {}, run := run.getD {} }

/-- The configuration in a text. -/
def parse? (text : String) : Option Configuration := do ofEntries? (← Toml.parse text)

end Configuration

end Cabinet
