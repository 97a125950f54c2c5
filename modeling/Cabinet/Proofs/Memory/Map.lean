import Cabinet.Proofs.Memory.Registration
/-!
# The address space as a map

What a caller sees of an address space is a partial map from addresses to bytes, some of which do
not take writes, together with the lengths of the banks that begin at an address: two banks that
touch answer the same addresses as one bank of their joint length would. `MemoryMap` is that map,
with the calls of an address space told by what they do to it and no row of banks behind it.
That the two cannot be told apart is `AddressSpace.answers_as_map`.
-/

namespace Cabinet

/-- The address `i` places above another one. -/
def addressAt (base : UInt16) (i : Nat) : UInt16 := base + UInt16.ofNat i

theorem toNat_addressAt {base : UInt16} {i : Nat} (h : base.toNat + i < 0x10000) :
    (addressAt base i).toNat = base.toNat + i := by
  have small : i < UInt16.size := Nat.lt_of_le_of_lt (Nat.le_add_left i _) h
  rw [addressAt, UInt16.toNat_add, UInt16.toNat_ofNat_of_lt' small, Nat.mod_eq_of_lt h]

/-- One of the `n` addresses from `i` places above `base` on. -/
def Within (base : UInt16) (i n : Nat) (a : UInt16) : Prop :=
  base.toNat + i ≤ a.toNat ∧ a.toNat < base.toNat + i + n

instance (base : UInt16) (i n : Nat) (a : UInt16) : Decidable (Within base i n a) :=
  inferInstanceAs (Decidable (_ ∧ _))

/-- All addresses, lowest first. -/
def addresses : List UInt16 := (List.range 0x10000).map UInt16.ofNat

/-- What stands at an address. -/
structure Cell where
  /-- The byte. -/
  value : UInt8
  /-- Writes are ignored. -/
  readOnly : Bool
deriving DecidableEq

/-- What is told of a bank. -/
structure BankView where
  /-- The lowest address. -/
  base : UInt16
  /-- The bytes. -/
  contents : ByteArray
  /-- Writes are ignored. -/
  readOnly : Bool

/-- What a caller sees of an address space. -/
@[ext]
structure MemoryMap where
  /-- What stands at an address, if the address is mapped. -/
  cell : UInt16 → Option Cell
  /-- The length of the bank that begins at an address, if there is one. -/
  extent : UInt16 → Option Nat

namespace MemoryMap

/-- Nothing is mapped. -/
def empty : MemoryMap := ⟨fun _ => none, fun _ => none⟩

/-! ### What is asked -/

/-- The byte at an address; zero if the address is not mapped. -/
def read (m : MemoryMap) (a : UInt16) : UInt8 := ((m.cell a).map Cell.value).getD 0

/-- The address is mapped. -/
def isMapped (m : MemoryMap) (a : UInt16) : Bool := (m.cell a).isSome

/-- The bank that begins at an address. -/
def bank? (m : MemoryMap) (base : UInt16) : Option BankView :=
  (m.extent base).map fun n =>
    { base
      contents := Bytes.ofFn n fun i => m.read (addressAt base i)
      readOnly := (m.cell base).any Cell.readOnly }

/-- The banks, lowest first. -/
def banks (m : MemoryMap) : List BankView := addresses.filterMap m.bank?

/-! ### What is done -/

/-- A registration is accepted: its bank can exist, and none of its addresses is mapped. -/
def Admits (m : MemoryMap) (r : Registration) : Prop :=
  r.Sound ∧ ∀ i < r.length, m.cell (addressAt r.base i) = none

instance (m : MemoryMap) (r : Registration) : Decidable (m.Admits r) :=
  inferInstanceAs (Decidable (_ ∧ ∀ i < r.length, _))

/-- The addresses of a new bank are mapped, to its first bytes. -/
def define (m : MemoryMap) (r : Registration) : MemoryMap where
  cell a :=
    if Within r.base 0 r.length a then
      some ⟨Bytes.get r.contents (a.toNat - r.base.toNat), r.readOnly⟩
    else m.cell a
  extent base := if base = r.base then some r.length else m.extent base

/-- The byte at an address is changed, if the address is mapped and takes writes. -/
def write (m : MemoryMap) (a : UInt16) (v : UInt8) : MemoryMap :=
  match m.cell a with
  | some c =>
    if c.readOnly then m
    else { m with cell := fun x => if x = a then some { c with value := v } else m.cell x }
  | none => m

/-- Bytes of the bank that begins at an address are replaced, whether it takes writes or not, if
there is such a bank and they fit. -/
def overwrite (m : MemoryMap) (base : UInt16) (offset : Nat) (data : ByteArray) : MemoryMap :=
  match m.extent base with
  | some n =>
    if offset + data.size ≤ n then
      { m with
        cell := fun a =>
          if Within base offset data.size a then
            (m.cell a).map fun c =>
              { c with value := Bytes.get data (a.toNat - base.toNat - offset) }
          else m.cell a }
    else m
  | none => m

/-- Puts bytes into the bank that begins at an address, one string after the other. -/
def fill (m : MemoryMap) (base : UInt16) (items : List (Nat × ByteArray)) : MemoryMap :=
  items.foldl (fun m item => m.overwrite base item.1 item.2) m

/-- The map after a change. -/
def change (m : MemoryMap) : MemoryChange → MemoryMap
  | .register r => if m.Admits r then (m.define r).fill r.base r.fill else m
  | .write a v => m.write a v
  | .overwrite base offset data => m.overwrite base offset data

/-- The map after changes. -/
def after (m : MemoryMap) (changes : List MemoryChange) : MemoryMap := changes.foldl change m

/-- A write changes the byte at its address and no other. -/
theorem cell_write (m : MemoryMap) (a x : UInt16) (v : UInt8) : (m.write a v).cell x =
    if x = a then (m.cell a).map fun c => if c.readOnly then c else { c with value := v }
    else m.cell x := by
  unfold write
  by_cases hx : x = a
  · subst hx
    rw [if_pos rfl]
    cases hc : m.cell x with
    | none => exact hc
    | some c =>
      dsimp only
      rw [Option.map_some]
      split
      · exact hc
      · exact if_pos rfl
  · rw [if_neg hx]
    cases hc : m.cell a with
    | none => rfl
    | some c =>
      dsimp only
      split
      · rfl
      · exact if_neg hx

theorem extent_write (m : MemoryMap) (a : UInt16) (v : UInt8) :
    (m.write a v).extent = m.extent := by
  unfold write
  split
  · split <;> rfl
  · rfl

/-- Replaced bytes are those of the bank that begins at the address, and no other. -/
theorem cell_overwrite {m : MemoryMap} {base : UInt16} {n offset : Nat} {data : ByteArray}
    (extent : m.extent base = some n) (fits : offset + data.size ≤ n) (x : UInt16) :
    (m.overwrite base offset data).cell x =
      if Within base offset data.size x then
        (m.cell x).map fun c => { c with value := Bytes.get data (x.toNat - base.toNat - offset) }
      else m.cell x := by
  unfold overwrite
  rw [extent]
  dsimp only
  rw [if_pos fits]

theorem overwrite_of_not_fits {m : MemoryMap} {base : UInt16} {n offset : Nat} {data : ByteArray}
    (extent : m.extent base = some n) (h : ¬offset + data.size ≤ n) :
    m.overwrite base offset data = m := by
  unfold overwrite
  rw [extent]
  dsimp only
  rw [if_neg h]

theorem overwrite_of_absent {m : MemoryMap} {base : UInt16} {offset : Nat} {data : ByteArray}
    (extent : m.extent base = none) : m.overwrite base offset data = m := by
  unfold overwrite
  rw [extent]

theorem extent_overwrite (m : MemoryMap) (base : UInt16) (offset : Nat) (data : ByteArray) :
    (m.overwrite base offset data).extent = m.extent := by
  unfold overwrite
  split
  · split <;> rfl
  · rfl

end MemoryMap

end Cabinet
