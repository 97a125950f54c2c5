import Cabinet.Disk.Basic
import Cabinet.SaveState.Codec
/-!
# Save states as files

A save state is written to a file beside the one it is to become, and moved over that file when it is
complete. So the file holds its old contents until it holds all of the new ones.
-/

namespace Cabinet.SaveState

variable {m : Type → Type} [Monad m] [MonadDisk m]

/-- The file in which a save state is written before it takes its place. -/
def draftPath (path : String) : String := path ++ ".tmp"

/-- Puts bytes in the place of a file by way of a draft, which is removed if a step fails. -/
def replaceFile (path : String) (bytes : ByteArray) : m (Except SaveStateError Unit) := do
  match ← MonadDisk.write (draftPath path) bytes with
  | .error _ =>
    let _ ← MonadDisk.remove (draftPath path)
    return .error .io
  | .ok () =>
    match ← MonadDisk.move (draftPath path) path with
    | .error _ =>
      let _ ← MonadDisk.remove (draftPath path)
      return .error .io
    | .ok () => return .ok ()

/-- Writes a save state that a machine can take. -/
def writeTo (s : SaveState) (path : String) : m (Except SaveStateError Unit) :=
  match s.validate with
  | .error e => return .error e
  | .ok () => replaceFile path s.toBytes

/-- Reads a save state. -/
def readFrom (path : String) : m (Except SaveStateError SaveState) := do
  match ← MonadDisk.read path with
  | .error _ => return .error .io
  | .ok bytes => return ofBytes bytes

end Cabinet.SaveState
