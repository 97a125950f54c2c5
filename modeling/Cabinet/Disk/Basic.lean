/-!
# Disks

What the program asks of a file system: to read and write whole files, to move and remove them, and to
list a directory. Each request is answered or fails with a cause. Programs are written for any disk
(`MonadDisk`); a tree of files in memory is one (`FileTree`).
-/

namespace Cabinet

/-- Why a request fails. -/
inductive DiskError where
  /-- There is nothing at the path. -/
  | notFound
  /-- Something on the way is no directory. -/
  | notADirectory
  /-- A directory is in the place of a file. -/
  | isADirectory
  /-- What is read is not what it ought to be. -/
  | invalidData
  /-- Compressed data are damaged. -/
  | corruptData
  /-- No file can have this path, or the disk fails. -/
  | other
deriving DecidableEq, Inhabited

/-- What is at a path. -/
inductive PathKind where
  | file | directory
deriving DecidableEq, Inhabited

/-- A file system that a program in `m` works on. -/
class MonadDisk (m : Type → Type) where
  /-- What is at a path. -/
  kindOf : String → m (Option PathKind)
  /-- The contents of a file. -/
  read : String → m (Except DiskError ByteArray)
  /-- Makes a file, or replaces its contents. -/
  write : String → ByteArray → m (Except DiskError Unit)
  /-- Moves a file over whatever file has the new path. -/
  move : String → String → m (Except DiskError Unit)
  /-- Removes a file. -/
  remove : String → m (Except DiskError Unit)
  /-- The names in a directory. -/
  list : String → m (Except DiskError (List String))

namespace MonadDisk

variable {m : Type → Type} [Monad m] [MonadDisk m]

/-- There is a regular file at the path. -/
def isFile (path : String) : m Bool := do return (← kindOf path) == some .file

/-- There is a directory at the path. -/
def isDirectory (path : String) : m Bool := do return (← kindOf path) == some .directory

/-- There is something at the path. -/
def exists? (path : String) : m Bool := do return (← kindOf path).isSome

end MonadDisk

/-- The path of a name in a directory; a name that begins with a slash is a path of its own. -/
def joinPath (directory name : String) : String :=
  if name.startsWith "/" then name
  else if directory.isEmpty || directory.endsWith "/" then directory ++ name
  else directory ++ "/" ++ name

end Cabinet
