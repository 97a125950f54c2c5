import Cabinet.Keyed
/-!
# ROM sets

A ROM set is the images of read-only chips under their file names, gathered from a directory or an
archive. Names are distinct: a later image of the same name takes the place of an earlier one.
-/

namespace Cabinet

/-- Why chips are refused. -/
inductive RomError where
  /-- No image has this name. -/
  | missingFile (name : String)
  /-- The image of this name has the wrong length. -/
  | sizeMismatch (file : String) (expected actual : Nat)
  /-- The image of this name has the wrong checksum. -/
  | checksumMismatch (file : String) (expected actual : UInt32)
deriving DecidableEq, Inhabited

/-- Chip images under their names. -/
structure RomSet where
  /-- The images, in the order in which their names came first. -/
  files : List (String × ByteArray) := []

namespace RomSet

/-- The image of this name. -/
def get? (s : RomSet) (name : String) : Option ByteArray := s.files.lookup name

/-- Adds or replaces an image. -/
def insert (s : RomSet) (name : String) (image : ByteArray) : RomSet :=
  { files := Keyed.insert name image s.files }

/-- The set of the given images; of two with one name the later counts. -/
def ofList (images : List (String × ByteArray)) : RomSet := { files := Keyed.ofList images }

/-- A name without the directories in front: what follows the last slash. -/
def bareName (name : String) : String :=
  String.ofList ((name.toList.reverse.takeWhile (· != '/')).reverse)

/-- The set of the members of an archive, whose directories are dropped from their names. -/
def ofMembers (members : List (String × ByteArray)) : RomSet :=
  ofList (members.map fun (name, image) => (bareName name, image))

/-- The image of this name, which has to be there. -/
def require (s : RomSet) (name : String) : Except RomError ByteArray :=
  match s.get? name with
  | some image => .ok image
  | none => .error (.missingFile name)

/-- The image of this name, which has to be there and have the given length. -/
def requireSized (s : RomSet) (name : String) (expected : Nat) : Except RomError ByteArray := do
  let image ← s.require name
  if image.size = expected then return image
  else throw (.sizeMismatch name expected image.size)

/-- A name finds the last of the images that are given under it. -/
theorem get?_ofList (images : List (String × ByteArray)) (name : String) :
    (ofList images).get? name = images.reverse.lookup name :=
  Keyed.lookup_ofList name images

/-- After inserting an image, its name finds it, and every other name finds what it found before. -/
theorem get?_insert (s : RomSet) (name other : String) (image : ByteArray) :
    (s.insert name image).get? other = if other = name then some image else s.get? other :=
  Keyed.lookup_insert name other image s.files

end RomSet

end Cabinet
