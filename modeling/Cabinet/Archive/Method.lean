import Cabinet.Archive.Bzip2
import Cabinet.Archive.Inflate
import Cabinet.Archive.Zstd.Frame
/-!
# Compression methods

How the data of a member of an archive may be stored, and the data that stored bytes stand for.
-/

namespace Cabinet.Zip

/-- How data are stored. -/
inductive Method where
  /-- As they are. -/
  | plain
  /-- By codes and near copies. -/
  | deflate
  /-- By codes and far copies. -/
  | deflate64
  /-- In sorted blocks. -/
  | bzip2
  /-- By range coding. -/
  | lzma
  /-- In frames of literals and sequences. -/
  | zstd
  /-- By range coding, in blocks with checksums. -/
  | xz
deriving DecidableEq, Inhabited

/-- The method of a code in an archive. -/
def Method.ofCode? (code : UInt16) : Option Method :=
  match code with
  | 0 => some .plain
  | 8 => some .deflate
  | 9 => some .deflate64
  | 12 => some .bzip2
  | 14 => some .lzma
  | 93 => some .zstd
  | 95 => some .xz
  | _ => none

/-- The data that stored bytes stand for. Range coding is not undone: of its data, only no bytes at all
stand for anything. -/
def Method.expand (m : Method) (stored : ByteArray) : Option ByteArray :=
  match m with
  | .plain => some stored
  | .deflate => Inflate.inflate stored
  | .deflate64 => if stored.isEmpty then some stored else Inflate.inflateFar stored
  | .bzip2 => Bzip2.expand stored
  | .zstd => Zstd.expand stored
  | .lzma | .xz => if stored.isEmpty then some stored else none

/-- Damaged data of the method are told apart from other reasons for not reading an archive. -/
def Method.tellsDamage (m : Method) : Bool :=
  match m with
  | .deflate | .bzip2 | .zstd => true
  | _ => false

end Cabinet.Zip
