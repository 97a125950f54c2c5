import Cabinet.Config.File
import Cabinet.Machine.Record
import Cabinet.Options.CommandLine
import Cabinet.Play.Session
import Cabinet.Rom.Path
import Cabinet.SaveState.File
import Cabinet.Video.Screenshot
/-!
# The program

One run of the program: read the configuration, build the machine from its ROM set, restore a save
state, play so many frames, and store the last picture and state. Options of the command line go before
the configuration, except that changes of the buttons are taken from both. The first failure ends the
run; what was taken down before it is kept.
-/

namespace Cabinet

/-- Why a run fails. -/
inductive RunError where
  /-- There is no configuration. -/
  | config (e : ConfigError)
  /-- The ROM set cannot be read. -/
  | disk (e : DiskError)
  /-- The machine cannot be built. -/
  | init (e : InitError)
  /-- A save state cannot be restored or stored. -/
  | state (e : SaveStateError)
  /-- The picture cannot be stored. -/
  | screenshot (e : ScreenshotError)
deriving DecidableEq, Inhabited

namespace Program

/-- The name of the ROM set. -/
def setName : String := "invaders"

/-- The frames to run if nobody says how many. -/
def defaultFrames : UInt64 := 600

/-- The settings of the machine: the switches may be set on the command line. -/
def settings (o : Options) (c : Configuration) : Settings :=
  let s := c.machine.settings
  { s with dips := o.dip.getD s.dips }

/-- The number of frames to run. -/
def frames (o : Options) (c : Configuration) : UInt64 :=
  (o.frames <|> c.run.frames).getD defaultFrames

/-- After how many frames to observe the game. -/
def reportEvery (o : Options) (c : Configuration) : UInt64 :=
  (o.reportEvery <|> c.run.reportEvery).getD 0

/-- The changes of the buttons. For one frame those of the command line come last. -/
def schedule (o : Options) (c : Configuration) : Schedule := .ofEvents (c.run.inputs ++ o.inputs)

/-- The last line of a run. -/
def summary (m : Machine) : String := s!"ran {m.frames} frames, {m.cycles} cycles"

/-- Plays a machine as asked. -/
def play (o : Options) (c : Configuration) (machine : Machine) : Session :=
  Session.play (reportEvery o c) (frames o c).toNat { machine, schedule := schedule o c }

/-- What a run tells everybody. -/
def publicLines (s : Session) : List String :=
  (s.notes.toList.filter (·.isPublic)).map (·.message) ++ [summary s.machine]

variable {m : Type → Type} [Monad m] [MonadDisk m]

/-- A step of a run, in the part of it that a failure is reported for. -/
def part {ε α : Type} (asRunError : ε → RunError) (step : m (Except ε α)) : ExceptT RunError m α :=
  ExceptT.mk do return (← step).mapError asRunError

/-- Builds the machine. -/
def prepare (o : Options) (c : Configuration) : ExceptT RunError m Machine := do
  let set ← part .disk (RomSet.ofPath setName o.romPath)
  part .init (return Machine.ofRomSet set (settings o c))

/-- Restores the save state that is asked for. -/
def restore (o : Options) (machine : Machine) : ExceptT RunError m Machine := do
  match o.load with
  | none => return machine
  | some path =>
    let state ← part .state (SaveState.readFrom path)
    part .state (return machine.restore state)

/-- Stores the picture that is asked for; gives the machine that it was taken from. -/
def storePicture (o : Options) (machine : Machine) : ExceptT RunError m Machine := do
  match o.screenshot with
  | none => return machine
  | some path =>
    let machine := machine.updatePixels
    part .screenshot (saveScreenshot path machine.pixels.toArray screenWidth screenHeight)
    return machine

/-- Stores the state that is asked for. -/
def storeState (o : Options) (machine : Machine) : ExceptT RunError m Unit := do
  match o.save with
  | none => return ()
  | some path => part .state (machine.capture.writeTo path)

/-- Runs the program up to the end of the play. -/
def playAll (o : Options) (directory? : Option String) : ExceptT RunError m Session := do
  let c ← part .config (Configuration.load o.config directory?)
  let machine ← restore o (← prepare o c)
  return play o c machine

/-- Stores the last picture and the last state. -/
def finish (o : Options) (machine : Machine) : ExceptT RunError m Unit := do
  storeState o (← storePicture o machine)

/-- Runs the program; gives the lines for everybody and whether it fails. -/
def run (o : Options) (directory? : Option String) : m (List String × Except RunError Unit) := do
  match ← (playAll o directory?).run with
  | .error e => return ([], .error e)
  | .ok session => return (publicLines session, ← (finish o session.machine).run)

end Program

end Cabinet
