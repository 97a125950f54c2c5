import Cabinet.Bytes.Little
/-!
# Directories of archives

Where the directory of an archive is. An archive ends with a record that tells it, which a comment may
follow (`Directory.ofEnd?`). Its numbers may be too small for a great archive: then a locator comes
before it, and before that a record with greater numbers, which counts instead. The archive may have
other bytes in front: all places are counted from its own beginning, which is where they fit the marks
that are found.
-/

namespace Cabinet.Zip

/-- The mark at the start of the last record. -/
def endMark : UInt32 := 0x06054B50

/-- The mark at the start of the locator. -/
def locatorMark : UInt32 := 0x07064B50

/-- The mark at the start of the record with great numbers. -/
def greatEndMark : UInt32 := 0x06064B50

/-- The mark at the start of a record of the directory. -/
def recordMark : UInt32 := 0x02014B50

/-- The number of bytes of the last record without its comment. -/
def endSize : Nat := 22

/-- The number of bytes of the locator. -/
def locatorSize : Nat := 20

/-- The least number of bytes of the record with great numbers. -/
def greatEndSize : Nat := 56

/-- The number of bytes of a record of the directory without what is of varying length. -/
def recordSize : Nat := 46

/-- The positions of a mark that lies between two positions, in their order. -/
def positions (b : ByteArray) (mark : UInt32) (start stop : Nat) : List Nat :=
  (List.range' start (stop - 3 - start)).filter fun p => Little.word32 b p == mark

/-- Where a directory is. -/
structure Directory where
  /-- Where the archive begins. -/
  base : Nat
  /-- Where the directory begins. -/
  start : Nat
  /-- How many members it lists. -/
  count : Nat

namespace Directory

/-- What the last record at `e` says. The directory begins with the first record from the place on
that is given for it, if the archive has members. -/
def ofNarrow? (b : ByteArray) (e : Nat) : Option Directory := do
  let given := Little.decode b 4 (e + 16)
  let base ←
    if Little.decode b 2 (e + 10) = 0 then some (e - given)
    else (positions b recordMark given e).head?.map (· - given)
  if Little.decode b 2 (e + 4) ≠ Little.decode b 2 (e + 6) then none
  return { base, start := given + base, count := Little.decode b 2 (e + 8) }

/-- The record with great numbers at `p` reaches up to the locator at `l`, agrees with it, and leaves
room for the records that it counts. -/
def fits (b : ByteArray) (l p : Nat) : Bool :=
  greatEndSize ≤ l - p && Little.decode b 8 (p + 4) + 12 == l - p &&
    Little.word32 b (p + 20) == Little.word32 b (l + 4) &&
    recordSize * Little.decode b 8 (p + 32) + Little.decode b 8 (p + 48) ≤ p

/-- What the record with great numbers says that the locator at `l` leads to. -/
def ofGreat? (b : ByteArray) (l : Nat) : Option Directory := do
  let given := Little.decode b 8 (l + 8)
  if 1 < Little.word32 b (l + 16) then none
  let p ← (positions b greatEndMark given l).find? (fits b l)
  if Little.decode b 8 (p + 32) < Little.decode b 8 (p + 24) then none
  if Little.word16 b (p + 12) < Little.word16 b (p + 14) then none
  if Little.word32 b (p + 16) ≠ Little.word32 b (p + 20) then none
  let base := p - given
  return { base, start := Little.decode b 8 (p + 48) + base, count := Little.decode b 8 (p + 32) }

/-- The number of members or the place of the directory is too great for the last record at `e`, and a
locator comes before it. -/
def hasLocator (b : ByteArray) (e : Nat) : Bool :=
  (Little.word16 b (e + 10) == 0xFFFF || Little.word32 b (e + 16) == 0xFFFFFFFF) &&
    locatorSize ≤ e && Little.word32 b (e - locatorSize) == locatorMark

/-- What the last record at `e` leads to. -/
def ofEnd? (b : ByteArray) (e : Nat) : Option Directory :=
  if b.size < e + endSize + Little.decode b 2 (e + 20) then none
  else if hasLocator b e then ofGreat? b (e - locatorSize)
  else ofNarrow? b e

end Directory

end Cabinet.Zip
