import Cabinet.Config.Basic
import Cabinet.Disk.Basic
/-!
# Configuration files

The configuration is read from the file that is asked for, which has to be there, or else from the
user's own file if there is one.
-/

namespace Cabinet

/-- Why there is no configuration. -/
inductive ConfigError where
  /-- The file cannot be read as text. -/
  | io
  /-- The text is no configuration. -/
  | parse
deriving DecidableEq, Inhabited

namespace Configuration

variable {m : Type → Type} [Monad m] [MonadDisk m]

/-- The user's own file below the directory of configurations. -/
def userPath (directory : String) : String := joinPath (joinPath directory "invaders") "config.toml"

/-- Reads a file. -/
def readFrom (path : String) : m (Except ConfigError Configuration) := do
  match ← MonadDisk.read path with
  | .error _ => return .error .io
  | .ok bytes =>
    match String.fromUTF8? bytes with
    | none => return .error .io
    | some text => return (parse? text).elim (.error .parse) .ok

/-- Reads the configuration. -/
def load (asked? : Option String) (directory? : Option String) :
    m (Except ConfigError Configuration) := do
  match asked?, directory? with
  | some path, _ => readFrom path
  | none, none => return .ok {}
  | none, some directory =>
    if ← MonadDisk.isFile (userPath directory) then readFrom (userPath directory)
    else return .ok {}

end Configuration

end Cabinet
