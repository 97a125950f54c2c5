import Cabinet.Machine.Operate
import Cabinet.Play.Schedule
/-!
# Sessions

A session runs a machine frame by frame without anybody at the buttons. Before a frame it sets the
buttons to what the schedule has due; after a frame it takes down an observation if the number of
frames run is a multiple of the number that the owner asked for.
-/

namespace Cabinet

/-- What a session takes down. -/
inductive Note where
  /-- The buttons are set before a frame. -/
  | input (frame : UInt64) (bits : UInt8)
  /-- The game is observed after so many frames. -/
  | observed (frames : UInt64) (seen : Observation)
  /-- The game cannot be observed. -/
  | unobservable (frames : UInt64) (reason : Observation.UnknownRevision)
deriving DecidableEq, Inhabited

namespace Note

/-- Whether a note is for everybody, or only for those who look into details. -/
def isPublic : Note → Bool
  | .observed .. => true
  | _ => false

/-- The wording of a note. -/
def message : Note → String
  | .input frame bits => s!"frame {frame}: input 0x{Text.hexByte bits}"
  | .observed frames seen =>
    s!"frame {frames}: score {seen.score} lives {seen.lives} aliens {seen.alienCount} " ++
      s!"game over {seen.gameOver}"
  | .unobservable frames reason => s!"frame {frames}: {reason.message}"

end Note

/-- A machine at play, what it is still to be given, and what has been taken down. -/
structure Session where
  /-- The machine. -/
  machine : Machine
  /-- The changes of the buttons to come. -/
  schedule : Schedule
  /-- The notes, oldest first. -/
  notes : Array Note := #[]

namespace Session

/-- Adds a note. -/
def write (s : Session) (n : Note) : Session := { s with notes := s.notes.push n }

/-- Sets the buttons to what is due. -/
def applyInput (s : Session) : Session :=
  let frame := s.machine.frames
  let (bits?, schedule) := s.schedule.due frame
  match bits? with
  | some bits =>
    { s with schedule, machine := s.machine.setInputBits bits }.write (.input frame bits)
  | none => { s with schedule }

/-- Takes down an observation. -/
def report (s : Session) : Session :=
  let frames := s.machine.frames
  match s.machine.observe with
  | .ok seen => s.write (.observed frames seen)
  | .error reason => s.write (.unobservable frames reason)

/-- An observation is wanted after so many frames. Zero asks for none. -/
def wantsReport (every frames : UInt64) : Bool := every != 0 && frames % every == 0

/-- Runs one frame. -/
def playFrame (every : UInt64) (s : Session) : Session :=
  let s := s.applyInput
  let s := { s with machine := s.machine.stepFrame.2 }
  if wantsReport every s.machine.frames then s.report else s

/-- Runs so many frames. -/
def play (every : UInt64) : Nat → Session → Session
  | 0, s => s
  | n + 1, s => play every n (s.playFrame every)

/-- Running in two parts is running on. -/
theorem play_add (every : UInt64) (n k : Nat) (s : Session) :
    play every (n + k) s = play every k (play every n s) := by
  induction n generalizing s with
  | zero => simp [play]
  | succ n ih => rw [Nat.add_right_comm, play, ih, play]

end Session

end Cabinet
