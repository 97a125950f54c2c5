import Cabinet.Disk.Basic
/-!
# File trees

A file tree is a finite map from paths, given as the names from the root on, to files and directories.
The root is a directory without an entry. A path given as text is followed name by name from the root
(`FileTree.locate`): all but the last name have to be directories. The tree is a part of a disk of which
there is nothing else: what leads out of it leads nowhere.
-/

namespace Cabinet

/-- What a path of a file tree leads to. -/
inductive Entry where
  /-- A file with these contents. -/
  | file (contents : ByteArray)
  /-- A directory. -/
  | directory

/-- The kind of an entry. -/
def Entry.kind : Entry → PathKind
  | .file _ => .file
  | .directory => .directory

/-- Entries by their paths. -/
structure FileTree where
  /-- The entries other than the root; the first one of a path counts. -/
  entries : List (List String × Entry) := []

namespace FileTree

/-- What a path leads to. -/
def get? (t : FileTree) (path : List String) : Option Entry :=
  if path = [] then some .directory else t.entries.lookup path

/-- Removes what a path leads to. -/
def erase (t : FileTree) (path : List String) : FileTree :=
  { entries := t.entries.filter (·.1 != path) }

/-- Puts an entry at a path. -/
def insert (t : FileTree) (path : List String) (e : Entry) : FileTree :=
  { entries := (path, e) :: (t.erase path).entries }

/-- Puts an entry at a path, and directories where the names on the way lead nowhere. -/
def insertWithParents (t : FileTree) (path : List String) (e : Entry) : FileTree :=
  let parents := (List.range path.length).map path.take
  (parents.foldl (fun t p => if (t.get? p).isSome then t else t.insert p .directory) t).insert path e

/-- The names in a directory. -/
def children (t : FileTree) (path : List String) : List String :=
  t.entries.filterMap fun (p, _) =>
    match p.getLast? with
    | some name => if p.dropLast = path then some name else none
    | none => none

/-! ### Paths as text -/

/-- The names in the text of a path. -/
def names (text : String) : List String :=
  ((text.toList.splitOn '/').map String.ofList).filter (! ·.isEmpty)

/-- The place that a text names. -/
structure Place where
  /-- The names from the root on. -/
  path : List String
  /-- The text ends as that of a directory does. -/
  isDirectory : Bool

/-- The greatest length of a name in bytes. -/
def maxNameLength : Nat := 255

/-- The greatest length of a path in bytes. -/
def maxPathLength : Nat := 4095

/-- Follows names from a directory; the last one need not lead anywhere. -/
def follow (t : FileTree) (directory : List String) : List String → Except DiskError (List String)
  | [] => .ok directory
  | "." :: rest => t.follow directory rest
  | ".." :: rest => if directory = [] then .error .notFound else t.follow directory.dropLast rest
  | name :: rest =>
    if maxNameLength < name.utf8ByteSize then .error .other
    else
      let path := directory ++ [name]
      match t.get? path, rest with
      | some .directory, _ => t.follow path rest
      | _, [] => .ok path
      | some (.file _), _ => .error .notADirectory
      | none, _ => .error .notFound

/-- Finds the place that a text names, from the root of the tree on. A text that begins with a slash leads
out of the tree, to which nothing else belongs: it names no place, and every request for it fails. -/
def locate (t : FileTree) (text : String) : Except DiskError Place := do
  if text.isEmpty || text.startsWith "/" then throw .notFound
  if text.contains (Char.ofNat 0) || maxPathLength < text.utf8ByteSize then throw .other
  let names := names text
  let path ← t.follow [] names
  return {
    path
    isDirectory := text.endsWith '/' || names.getLast? == some "." || names.getLast? == some ".." }

/-! ### Requests -/

/-- What is at a path. -/
def kindOf (t : FileTree) (text : String) : Option PathKind :=
  match t.locate text with
  | .ok place =>
    match t.get? place.path with
    | some .directory => some .directory
    | some (.file _) => if place.isDirectory then none else some .file
    | none => none
  | .error _ => none

/-- The contents of a file. -/
def read (t : FileTree) (text : String) : Except DiskError ByteArray := do
  let place ← t.locate text
  match t.get? place.path with
  | none => throw .notFound
  | some .directory => throw .isADirectory
  | some (.file contents) =>
    if place.isDirectory then throw .notADirectory
    return contents

/-- Makes a file, or replaces its contents. -/
def write (t : FileTree) (text : String) (contents : ByteArray) : Except DiskError FileTree := do
  let place ← t.locate text
  match t.get? place.path with
  | some .directory => throw .isADirectory
  | some (.file _) => if place.isDirectory then throw .notADirectory
  | none => if place.isDirectory then throw .isADirectory
  return t.insert place.path (.file contents)

/-- Removes a file. -/
def remove (t : FileTree) (text : String) : Except DiskError FileTree := do
  let place ← t.locate text
  match t.get? place.path with
  | none => throw .notFound
  | some .directory => throw .isADirectory
  | some (.file _) =>
    if place.isDirectory then throw .notADirectory
    return t.erase place.path

/-- Moves a file over whatever file has the new path. -/
def move (t : FileTree) (text target : String) : Except DiskError FileTree := do
  let contents ← t.read text
  (← t.remove text).write target contents

/-- The names in a directory. -/
def list (t : FileTree) (text : String) : Except DiskError (List String) := do
  let place ← t.locate text
  match t.get? place.path with
  | none => throw .notFound
  | some (.file _) => throw .notADirectory
  | some .directory => return t.children place.path

/-- Answers a request that changes the tree; if it fails the tree stays as it is. -/
def request (f : FileTree → Except DiskError FileTree) : StateM FileTree (Except DiskError Unit) :=
  fun t =>
    match f t with
    | .ok t' => (.ok (), t')
    | .error e => (.error e, t)

instance : MonadDisk (StateM FileTree) where
  kindOf path := do return (← get).kindOf path
  read path := do return (← get).read path
  write path contents := request (·.write path contents)
  move path target := request (·.move path target)
  remove path := request (·.remove path)
  list path := do return (← get).list path

end FileTree

end Cabinet
