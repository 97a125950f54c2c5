import Cabinet.Archive.Zip
import Cabinet.Disk.Basic
import Cabinet.Rom.Set
/-!
# Where ROM sets are found

A ROM set is an archive, an archive of the right name in a directory, or the loose files of a
directory.
-/

namespace Cabinet.RomSet

variable {m : Type → Type} [Monad m] [MonadDisk m]

/-- The last name of a path, if the path ends with one; one point alone leads nowhere else. -/
def fileName? (path : String) : Option String :=
  let names := (path.splitOn "/").filter fun name => name != "" && name != "."
  names.getLast?.filter (· != "..")

/-- What follows the last point of the last name, if something comes before the point. -/
def extension? (path : String) : Option (List Char) := do
  let name := (← fileName? path).toList.reverse
  match name.dropWhile (· != '.') with
  | _ :: _ :: _ => some (name.takeWhile (· != '.')).reverse
  | _ => none

/-- The path is that of an archive. -/
def isArchivePath (path : String) : Bool :=
  (extension? path).any fun e => String.ofList (e.map Char.toLower) == "zip"

/-- The set in an archive. -/
def ofArchive (path : String) : m (Except DiskError RomSet) := do
  match ← MonadDisk.read path with
  | .error .isADirectory => return .error .invalidData
  | .error e => return .error e
  | .ok bytes =>
    match Zip.files bytes with
    | .ok files => return .ok (ofMembers files)
    | .error .unreadable => return .error .invalidData
    | .error .corrupt => return .error .corruptData

/-- The set of the given files of a directory. -/
def ofNames (directory : String) : List String → RomSet → m (Except DiskError RomSet)
  | [], s => return .ok s
  | name :: names, s => do
    let path := joinPath directory name
    if ← MonadDisk.isFile path then
      match ← MonadDisk.read path with
      | .error e => return .error e
      | .ok image => ofNames directory names (s.insert name image)
    else ofNames directory names s

/-- The set of the loose files of a directory. -/
def ofDirectory (directory : String) : m (Except DiskError RomSet) := do
  match ← MonadDisk.list directory with
  | .error e => return .error e
  | .ok names => ofNames directory names {}

/-- The set that a path leads to. -/
def ofPath (setName path : String) : m (Except DiskError RomSet) := do
  if isArchivePath path then ofArchive path
  else if ← MonadDisk.isDirectory path then
    let archive := joinPath path (setName ++ ".zip")
    if ← MonadDisk.exists? archive then ofArchive archive else ofDirectory path
  else return .error .notFound

end Cabinet.RomSet
