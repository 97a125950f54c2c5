import Cabinet.Bytes.Little
import Cabinet.Crc32
import Cabinet.Text.CodePage
import Cabinet.Text.Repaired
/-!
# Members of archives

What the directory of an archive says of a member. A record of the directory has a part of fixed size
and extra fields, each with a mark and a length, that amend it (`Member.amend?`): they give sizes and
places that are too great for the fixed part, a name or a comment in Unicode, or how the member is
encrypted. A field that contradicts itself or the member makes the archive unreadable; the bytes of the
extra fields may end within a field, which is then as good as absent.
-/

namespace Cabinet.Zip

/-- What a directory says of a member. -/
structure Member where
  /-- The name. -/
  name : String
  /-- The bytes that the name is written with. -/
  nameBytes : ByteArray
  /-- The comment. -/
  comment : String
  /-- The data are encrypted. -/
  encrypted : Bool
  /-- The data are encrypted in a way that an extra field tells. -/
  sealed : Bool := false
  /-- How the data are compressed. -/
  method : UInt16
  /-- The checksum of the data. -/
  crc : UInt32
  /-- The number of bytes stored. -/
  storedSize : Nat
  /-- The number of bytes of the data. -/
  size : Nat
  /-- Where the member begins in the archive. -/
  offset : Nat

/-- The member is a directory. -/
def Member.isDirectory (m : Member) : Bool := m.name.endsWith "/" || m.name.endsWith "\\"

/-! ### Extra fields -/

/-- Why a field is not read to its end. -/
inductive Stop where
  /-- It contradicts itself or the member. -/
  | refused
  /-- The bytes end before it does. -/
  | cut

/-- A member that is being amended, and the bytes of the fields that are left. -/
structure Amending where
  /-- The member as amended so far. -/
  member : Member
  /-- The bytes that are left. -/
  rest : List UInt8

/-- A step of reading extra fields. -/
abbrev ExtraM := ExceptT Stop (StateM Amending)

namespace ExtraM

/-- Takes bytes. -/
def take (n : Nat) : ExtraM (List UInt8) := do
  let s ← get
  if s.rest.length < n then throw .cut
  set { s with rest := s.rest.drop n }
  return s.rest.take n

/-- Takes a number. -/
def number (width : Nat) : ExtraM Nat := return Little.decode (Bytes.ofList (← take width)) width 0

/-- Ends with a contradiction unless something holds. -/
def check (holds : Bool) : ExtraM Unit := unless holds do throw .refused

/-- Changes the member. -/
def change (f : Member → Member) : ExtraM Unit := modify fun s => { s with member := f s.member }

/-- What the fixed part of a record says instead of a number that is too great for it. -/
def tooGreat : Nat := 0xFFFFFFFF

/-- Takes a great number if there is one for `old`. -/
def great (always : Bool) (old : Nat) : ExtraM Nat :=
  if always || old == tooGreat then number 8 else return old

/-- A field of great numbers. -/
def greatNumbers (length : Nat) : ExtraM Unit := do
  let always := 24 ≤ length
  let before := (← get).rest.length
  let size ← great always (← get).member.size
  change ({ · with size })
  let storedSize ← great always (← get).member.storedSize
  change ({ · with storedSize })
  let offset ← great always (← get).member.offset
  change ({ · with offset })
  let taken := before - (← get).rest.length
  check (taken ≤ length)
  discard (take (length - taken))

/-- A field of three moments to the tenth of a microsecond. -/
def fineMoments (length : Nat) : ExtraM Unit := do
  check (length == 32)
  discard (take 4)
  check ((← number 2) == 1)
  check ((← number 2) == 24)
  discard (take 24)

/-- A field of up to three moments to the second, which begins with one bit for each of them. -/
def moments (length : Nat) : ExtraM Unit := do
  let bits ← number 1
  check (length == 5 || length == 1 + 4 * (List.range 8).countP fun i => bits.testBit i)
  check (bits < 8)
  discard (take (length - 1))

/-- A field that tells how the member is encrypted. -/
def encryption (length : Nat) : ExtraM Unit := do
  check (length == 7)
  let version ← number 2
  let vendor ← number 2
  let strength ← number 1
  let method ← number 2
  check (vendor == 0x4541)
  check (version == 1 || version == 2)
  check (1 ≤ strength && strength ≤ 3)
  change ({ · with sealed := true, method := UInt16.ofNat method })

/-- A field with the text that stands for older bytes, if their checksum is in it. -/
def text (length : Nat) (older : Member → ByteArray) : ExtraM ByteArray := do
  discard (take 1)
  let crc ← number 4
  check (5 ≤ length)
  let bytes := Bytes.ofList (← take (length - 5))
  check (crc == (Crc32.checksum (older (← get).member)).toNat)
  return bytes

/-- Reads one extra field. -/
def field : ExtraM Unit := do
  let mark ← number 2
  let length ← number 2
  match mark with
  | 0x0001 => greatNumbers length
  | 0x000A => fineMoments length
  | 0x5455 => moments length
  | 0x9901 => encryption length
  | 0x6375 =>
    match String.fromUTF8? (← text length (·.comment.toUTF8)) with
    | some comment => change ({ · with comment })
    | none => throw .refused
  | 0x7075 =>
    let nameBytes ← text length (·.nameBytes)
    match String.fromUTF8? nameBytes with
    | some name => change ({ · with name, nameBytes })
    | none => throw .refused
  | _ => discard (take length)

end ExtraM

/-- The member as the bytes of its extra fields amend it. -/
def Member.amend? (m : Member) (extra : List UInt8) : Option Member :=
  if extra.isEmpty then some m
  else
    match ExtraM.field.run { member := m, rest := extra } with
    | (.ok (), s) => if s.rest.length < extra.length then s.member.amend? s.rest else none
    | (.error .cut, s) => some s.member
    | (.error .refused, _) => none
termination_by extra.length

end Cabinet.Zip
