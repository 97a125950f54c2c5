import Cabinet.Options.Value
/-!
# The command line

A command line is read from left to right into the options of a run. An option that takes a value has
it behind an equals sign or as the next argument; a value of the second kind is only looked at when the
next option or path comes, or at the end, so an argument that belongs nowhere is reported before it.
Arguments behind two dashes are paths whatever they look like.
-/

namespace Cabinet

/-- The options that take a value. -/
inductive OptionName where
  | config | frames | dip | load | save | screenshot | input | reportEvery
deriving DecidableEq, Inhabited

namespace OptionName

/-- All options. -/
def all : List OptionName := [.config, .frames, .dip, .load, .save, .screenshot, .input, .reportEvery]

/-- An option as it is written behind two dashes. -/
def text : OptionName → String
  | .config => "config"
  | .frames => "frames"
  | .dip => "dip"
  | .load => "load"
  | .save => "save"
  | .screenshot => "screenshot"
  | .input => "input"
  | .reportEvery => "report-every"

/-- The option that is written so. -/
def ofText? (s : String) : Option OptionName := all.find? (·.text == s)

end OptionName

/-- Why a command line starts no run. -/
inductive UsageError where
  /-- Help is asked for. -/
  | help
  /-- The version is asked for. -/
  | version
  /-- An argument belongs nowhere. -/
  | unknownArgument
  /-- An option has no value, or a path is empty. -/
  | missingValue
  /-- A value is refused. -/
  | invalidValue
  /-- An option that is given once is given again. -/
  | repeated
  /-- A value is given where none is taken. -/
  | unexpectedValue
  /-- The path of the ROM set is missing. -/
  | missingPath
deriving DecidableEq, Inhabited

/-- What a command line asks for. -/
structure Options where
  /-- Where the ROM set is. -/
  romPath : String
  /-- Where the configuration is. -/
  config : Option String := none
  /-- The number of frames to run. -/
  frames : Option UInt64 := none
  /-- The switches. -/
  dip : Option Dips := none
  /-- The save state to start from. -/
  load : Option String := none
  /-- Where to put the last state. -/
  save : Option String := none
  /-- Where to put the last picture. -/
  screenshot : Option String := none
  /-- Changes of the buttons. -/
  inputs : List InputEvent := []
  /-- After how many frames to observe the game. -/
  reportEvery : Option UInt64 := none
deriving DecidableEq, Inhabited

namespace Options

/-- The argument that came last, while it is still to be looked at. -/
inductive Latest where
  /-- There is none. -/
  | settled
  /-- An option whose value is the next argument. -/
  | option (name : OptionName)
  /-- An option with its value. -/
  | value (name : OptionName) (text : String)
  /-- A path. -/
  | path (text : String)

/-- What has been read of a command line. -/
structure Reading where
  /-- The path of the ROM set, if it has come. -/
  romPath : Option String := none
  /-- The other options; the path among them does not count. -/
  options : Options := { romPath := "" }
  /-- What is still to be looked at. -/
  latest : Latest := .settled
  /-- Only paths follow. -/
  pathsOnly : Bool := false

/-- Reads a path. -/
def pathValue (s : String) : Except UsageError String :=
  if s.isEmpty then .error .missingValue else .ok s

/-- Reads a number of frames. -/
def countValue (s : String) : Except UsageError UInt64 :=
  match Value.number 10 (UInt64.size - 1) s.toList s.toList with
  | .ok n => .ok (UInt64.ofNat n)
  | .error _ => .error .invalidValue

/-- Fails if an option already has a value. -/
def once {α : Type} (old : Option α) : Except UsageError Unit :=
  if old.isSome then .error .repeated else .ok ()

/-- Sets an option. -/
def set (o : Options) (name : OptionName) (value : String) : Except UsageError Options := do
  match name with
  | .config => once o.config; return { o with config := ← pathValue value }
  | .load => once o.load; return { o with load := ← pathValue value }
  | .save => once o.save; return { o with save := ← pathValue value }
  | .screenshot => once o.screenshot; return { o with screenshot := ← pathValue value }
  | .frames => once o.frames; return { o with frames := ← countValue value }
  | .reportEvery => once o.reportEvery; return { o with reportEvery := ← countValue value }
  | .dip =>
    once o.dip
    return { o with dip := ← (Value.dips value.toList).mapError fun _ => .invalidValue }
  | .input =>
    let event ← (Value.inputEvent value.toList).mapError fun _ => .invalidValue
    return { o with inputs := o.inputs ++ [event] }

namespace Reading

/-- Looks at what came last. -/
def settle (r : Reading) : Except UsageError Reading := do
  match r.latest with
  | .settled => return r
  | .option _ => throw .missingValue
  | .value name text => return { r with options := ← r.options.set name text, latest := .settled }
  | .path text => return { r with romPath := some (← pathValue text), latest := .settled }

/-- The path has come. -/
def hasPath (r : Reading) : Bool :=
  match r.latest with
  | .path _ => true
  | _ => r.romPath.isSome

/-- Takes a path. There is only one. -/
def takePath (r : Reading) (text : String) : Except UsageError Reading :=
  if r.hasPath then .error .unknownArgument
  else do return { ← r.settle with latest := .path text }

/-- Takes an argument behind two dashes. -/
def takeLong (r : Reading) (text : List Char) : Except UsageError Reading :=
  let name := String.ofList (text.takeWhile (· != '='))
  let value? : Option String :=
    match text.dropWhile (· != '=') with
    | _ :: value => some (String.ofList value)
    | [] => none
  match name, value? with
  | "help", none => do let _ ← r.settle; throw .help
  | "version", none => do let _ ← r.settle; throw .version
  | "help", some _ | "version", some _ => .error .unexpectedValue
  | _, _ =>
    match OptionName.ofText? name, value? with
    | none, _ => .error .unknownArgument
    | some o, none => do return { ← r.settle with latest := .option o }
    | some o, some value => do
      let r ← r.settle
      return { r with options := ← r.options.set o value }

/-- Takes an argument behind one dash, of which the first letter counts. -/
def takeShort (r : Reading) (letter : Char) : Except UsageError Reading :=
  match letter with
  | 'h' => do let _ ← r.settle; throw .help
  | 'V' => do let _ ← r.settle; throw .version
  | _ => .error .unknownArgument

/-- Takes the next argument. -/
def take (r : Reading) (argument : String) : Except UsageError Reading :=
  if r.pathsOnly then r.takePath argument
  else
    match argument.toList with
    | ['-', '-'] => .ok { r with pathsOnly := true }
    | '-' :: '-' :: text => r.takeLong text
    | '-' :: letter :: _ => r.takeShort letter
    | _ =>
      match r.latest with
      | .option name => .ok { r with latest := .value name argument }
      | _ => r.takePath argument

end Reading

/-- Reads a command line. -/
def ofArguments (arguments : List String) : Except UsageError Options := do
  let r ← arguments.foldlM Reading.take {}
  let r ← r.settle
  match r.romPath with
  | some romPath => return { r.options with romPath }
  | none => throw .missingPath

end Options

end Cabinet
