import Cabinet.Program
/-!
# The command

The program on a real file system, with its messages on the terminal.
-/

namespace Cabinet

/-- The cause of a failure of the file system. -/
def DiskError.ofIO : IO.Error → DiskError
  | .noFileOrDirectory .. => .notFound
  | .inappropriateType .. => .isADirectory
  | _ => .other

/-- An action that may fail with a cause. -/
def attempt {α : Type} (action : IO α) : IO (Except DiskError α) := do
  try return .ok (← action)
  catch e => return .error (.ofIO e)

/-- What is at a path. -/
def kindOnDisk (path : String) : IO (Option PathKind) := do
  try
    let path ← IO.FS.realPath path
    if ← path.isDir then return some .directory
    else if ← path.pathExists then return some .file
    else return none
  catch _ => return none

/-- The file system of the computer. -/
instance : MonadDisk IO where
  kindOf := kindOnDisk
  read path := do
    if (← kindOnDisk path) == some .directory then return .error .isADirectory
    else attempt (IO.FS.readBinFile path)
  write path contents := attempt (IO.FS.writeBinFile path contents)
  move path target := attempt (IO.FS.rename path target)
  remove path := attempt (IO.FS.removeFile path)
  list path := attempt do
    return ((← (← IO.FS.realPath path).readDir).map (·.fileName)).toList

/-- How the command is used. -/
def usage : String := "
Usage: invaders [OPTIONS] <ROM_PATH>

Options:
  --config <FILE>           Configuration file
  --frames <FRAMES>         Frames to run
  --dip <A,B,C>             Bytes of the switches
  --load <STATE>            Save state to start from
  --save <STATE>            Where to put the last state
  --screenshot <FILE.png>   Where to put the last picture
  --input <FRAME:BITS>      Set the buttons before a frame (repeatable)
  --report-every <N>        Observe the game every N frames
  -h, --help                Print help
  -V, --version             Print version"

/-- The wording of a refused command line. -/
def UsageError.message : UsageError → String
  | .help => "Headless Space Invaders runner\n" ++ usage
  | .version => "invaders 0.1.0"
  | .unknownArgument => "error: unexpected argument\n" ++ usage
  | .missingValue => "error: a value is required\n" ++ usage
  | .invalidValue => "error: invalid value\n" ++ usage
  | .repeated => "error: the argument cannot be used multiple times\n" ++ usage
  | .unexpectedValue => "error: unexpected value\n" ++ usage
  | .missingPath => "error: the ROM path was not provided\n" ++ usage

/-- The wording of a failed run. -/
def RunError.message : RunError → String
  | .config .io => "cannot read the configuration"
  | .config .parse => "invalid configuration"
  | .disk .notFound => "ROM path not found"
  | .disk _ => "cannot read the ROM set"
  | .init e => e.message
  | .state e => e.message
  | .screenshot .noPixels => "the picture has no pixels"
  | .screenshot (.disk _) => "cannot write the screenshot"

/-- The directory of the user's configurations. -/
def configDirectory : IO (Option String) := do
  match ← IO.getEnv "XDG_CONFIG_HOME" with
  | some path => if path.startsWith "/" then return some path
  | none => pure ()
  return (← IO.getEnv "HOME").map (joinPath · ".config")

/-- Runs the command; gives its exit code. -/
def command (arguments : List String) : IO UInt32 := do
  match Options.ofArguments arguments with
  | .error e =>
    if e = .help ∨ e = .version then
      IO.println e.message
      return 0
    IO.eprintln e.message
    return 2
  | .ok options =>
    let (lines, result) ← Program.run options (← configDirectory)
    lines.forM fun line => IO.eprintln line
    match result with
    | .ok () => return 0
    | .error e =>
      IO.eprintln ("Error: " ++ e.message)
      return 1

end Cabinet

/-- Runs the command. -/
def main (arguments : List String) : IO UInt32 := Cabinet.command arguments
