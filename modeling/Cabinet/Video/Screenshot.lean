import Cabinet.Disk.Basic
import Cabinet.Image.Png
import Cabinet.Video.Upright
/-!
# Screenshots

A picture is stored upright. A picture without pixels cannot be stored; that is noticed when the file
is there already, which stays empty.
-/

namespace Cabinet

/-- Why a picture cannot be stored. -/
inductive ScreenshotError where
  /-- It has no pixels. -/
  | noPixels
  /-- The file cannot be written. -/
  | disk (e : DiskError)
deriving DecidableEq, Inhabited

/-- Stores the upright picture of a raster. -/
def saveScreenshot {m : Type → Type} [Monad m] [MonadDisk m] (path : String) (px : Array UInt32)
    (width height : Nat) : m (Except ScreenshotError Unit) := do
  let bytes :=
    if width = 0 ∨ height = 0 then ByteArray.empty
    else Png.encode height width (uprightRgb width height px)
  match ← MonadDisk.write path bytes with
  | .error e => return .error (.disk e)
  | .ok () => return if bytes.isEmpty then .error .noPixels else .ok ()

end Cabinet
