import Cabinet.Archive.Directory
import Cabinet.Archive.Member
import Cabinet.Archive.Method
import Cabinet.Keyed
/-!
# Archives

An archive has a directory with a record for each member, which says where the member begins; there it
has a further record, which its data follow. Of several directories that a file may seem to have, the one
that ends last counts among those whose records can be read and tell of members in front of it
(`members?`). The record that a member begins with is looked at only when the member is read, so a member
that another of its name replaces need not have one. Members are stored as they are or compressed.
-/

namespace Cabinet.Zip

/-- Why an archive is not read. -/
inductive Failure where
  /-- It is no archive, or one of a kind that is not supported, or data are damaged. -/
  | unreadable
  /-- Compressed data stand for nothing. -/
  | corrupt
deriving DecidableEq, Inhabited

/-- The mark at the start of a member. -/
def memberMark : UInt32 := 0x04034B50

/-- The number of bytes in front of a member's data without what is of varying length. -/
def memberSize : Nat := 30

/-- The method of members that are encrypted in a way that an extra field tells. -/
def sealedMethod : UInt16 := 99

/-- A text of a record, which says whether it is in Unicode. -/
def recordText (unicode : Bool) (b : ByteArray) : String :=
  if unicode then Text.repaired b.data.toList else Text.ofCodePage b.data.toList

/-- The member of the record of a directory at `p`, and the position behind the record. -/
def record? (b : ByteArray) (p : Nat) : Option (Member × Nat) := do
  let nameEnd := p + recordSize + Little.decode b 2 (p + 28)
  let extraEnd := nameEnd + Little.decode b 2 (p + 30)
  let next := extraEnd + Little.decode b 2 (p + 32)
  if Little.word32 b p ≠ recordMark ∨ b.size < next then none
  let flags := Little.decode b 2 (p + 8)
  let nameBytes := b.extract (p + recordSize) nameEnd
  let member : Member := {
    name := recordText (flags.testBit 11) nameBytes
    nameBytes
    comment := recordText (flags.testBit 11) (b.extract extraEnd next)
    encrypted := flags.testBit 0
    method := Little.word16 b (p + 10)
    crc := Little.word32 b (p + 16)
    storedSize := Little.decode b 4 (p + 20)
    size := Little.decode b 4 (p + 24)
    offset := Little.decode b 4 (p + 42) }
  let member ← member.amend? (b.extract nameEnd extraEnd).data.toList
  if member.method = sealedMethod ∧ ¬ member.sealed then none
  return (member, next)

/-- The members that a directory lists, with where they begin, which is in front of the directory; `count`
of them are left, whose records begin at `p`. -/
def listed? (b : ByteArray) (d : Directory) : Nat → Nat → Option (List (Member × Nat))
  | 0, _ => some []
  | count + 1, p => do
    let (m, next) ← record? b p
    let start := d.base + m.offset
    if d.start ≤ start then none
    return (m, start) :: (← listed? b d count next)

/-- The members of an archive under their names, with where they begin, in the order of its directory;
of two with one name the later counts. -/
def members? (b : ByteArray) : Option (List (String × Member × Nat)) := do
  let members ← (positions b endMark 0 b.size).reverse.findSome? fun e => do
    let d ← Directory.ofEnd? b e
    listed? b d d.count d.start
  return Keyed.ofList (members.map fun (m, start) => (m.name, m, start))

/-- Where the data of the member that begins at `p` begin: behind its own record, which may reach over
whatever follows. -/
def dataStart? (b : ByteArray) (p : Nat) : Option Nat :=
  if p + memberSize ≤ b.size ∧ Little.word32 b p = memberMark then
    some (p + memberSize + Little.decode b 2 (p + 26) + Little.decode b 2 (p + 28))
  else none

/-- The data of a member, which begin at `start`. -/
def Member.contents (b : ByteArray) (m : Member) (start : Nat) : Except Failure ByteArray := do
  let stored := b.extract start (start + m.storedSize)
  let data ←
    match Method.ofCode? m.method with
    | some method =>
      let failure := if method.tellsDamage then Failure.corrupt else .unreadable
      (method.expand stored).elim (throw failure) pure
    | none => throw .unreadable
  if Crc32.checksum data = m.crc then return data else throw .unreadable

/-- A member can be read. -/
def Member.isSupported (m : Member) : Bool :=
  ! m.encrypted && ! m.sealed && (Method.ofCode? m.method).isSome

/-- The files among members, with their names. -/
def filesOf (b : ByteArray) : List (String × Member × Nat) → Except Failure (List (String × ByteArray))
  | [] => .ok []
  | (name, m, p) :: rest => do
    if ! m.isSupported then throw .unreadable
    let start ← (dataStart? b p).elim (throw .unreadable) pure
    if m.isDirectory then filesOf b rest
    else
      let contents ← m.contents b start
      return (name, contents) :: (← filesOf b rest)

/-- The files in an archive with their names, in the order of the directory. -/
def files (b : ByteArray) : Except Failure (List (String × ByteArray)) :=
  match members? b with
  | some members => filesOf b members
  | none => .error .unreadable

end Cabinet.Zip
