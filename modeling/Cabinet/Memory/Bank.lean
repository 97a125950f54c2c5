import Cabinet.Bytes
/-!
# Memory banks

A bank answers a run of addresses with one byte string; a read-only bank ignores writes. A bank holds
at least one byte and ends within the address range, so the addresses it answers are distinct and
its place is given by its base and size.
-/

namespace Cabinet

/-- A bank of memory. -/
structure Bank where
  /-- The lowest address. -/
  base : UInt16
  /-- The bytes, by their distance from the base. -/
  contents : ByteArray
  /-- Writes are ignored. -/
  readOnly : Bool
  /-- There is at least one byte. -/
  nonempty : 0 < contents.size
  /-- The last byte has an address. -/
  fits : base.toNat + contents.size ≤ 0x10000

namespace Bank

/-- The number of bytes. -/
@[inline] def size (b : Bank) : Nat := b.contents.size

/-- The first address above the bank, which may be beyond the address range. -/
@[inline] def stop (b : Bank) : Nat := b.base.toNat + b.size

/-- The distance of an address from the base, for addresses that the bank answers. -/
@[inline] def offset (b : Bank) (a : UInt16) : Nat := a.toNat - b.base.toNat

/-- The bank answers this address. -/
@[inline] def contains (b : Bank) (a : UInt16) : Bool :=
  b.base ≤ a && b.offset a < b.size

theorem contains_iff (b : Bank) (a : UInt16) :
    b.contains a = true ↔ b.base.toNat ≤ a.toNat ∧ a.toNat < b.stop := by
  simp only [contains, Bool.and_eq_true, decide_eq_true_eq, UInt16.le_iff_toNat_le]
  simp only [offset, stop]
  omega

theorem offset_lt_size {b : Bank} {a : UInt16} (h : b.contains a = true) :
    b.offset a < b.contents.size := by
  simp only [contains, Bool.and_eq_true, decide_eq_true_eq] at h
  exact h.2

/-- The bank answers one of the `length` addresses from `base` on. -/
def overlaps (b : Bank) (base : UInt16) (length : Nat) : Bool :=
  base.toNat < b.stop && b.base.toNat < base.toNat + length

/-- The byte at an address; zero at an address that the bank does not answer. -/
@[inline] def read (b : Bank) (a : UInt16) : UInt8 :=
  if h : b.contains a then
    have := offset_lt_size h
    b.contents[b.offset a]
  else 0

/-- Replaces the byte at an address, if the bank answers the address and takes writes. -/
@[inline] def write (b : Bank) (a : UInt16) (v : UInt8) : Bank :=
  if h : b.contains a ∧ b.readOnly = false then
    { b with
      contents := b.contents.set (b.offset a) v (offset_lt_size h.1)
      nonempty := by simpa using b.nonempty
      fits := by simpa using b.fits }
  else b

/-- Replaces the bytes from an offset on, also those of a read-only bank. Bytes that do not fit
change nothing. -/
def overwrite (b : Bank) (offset : Nat) (data : ByteArray) : Bank :=
  { b with
    contents := Bytes.overwrite b.contents offset data
    nonempty := by simpa using b.nonempty
    fits := by simpa using b.fits }

@[simp] theorem base_write (b : Bank) (a : UInt16) (v : UInt8) : (b.write a v).base = b.base := by
  unfold write; split <;> rfl

@[simp] theorem size_write (b : Bank) (a : UInt16) (v : UInt8) : (b.write a v).size = b.size := by
  unfold write; split <;> simp [size]

@[simp] theorem stop_write (b : Bank) (a : UInt16) (v : UInt8) : (b.write a v).stop = b.stop := by
  simp [stop]

@[simp] theorem base_overwrite (b : Bank) (i : Nat) (data : ByteArray) :
    (b.overwrite i data).base = b.base := rfl

@[simp] theorem size_overwrite (b : Bank) (i : Nat) (data : ByteArray) :
    (b.overwrite i data).size = b.size := by
  simp [overwrite, size]

@[simp] theorem stop_overwrite (b : Bank) (i : Nat) (data : ByteArray) :
    (b.overwrite i data).stop = b.stop := by
  simp [stop]

end Bank

end Cabinet
