import Cabinet.Machine.Basic
import Cabinet.Proofs.Outcome
/-!
# The memory of the machine

The machine has two banks of eight kilobytes: the program, which is never changed, and above it the
memory that can be written. `AddressSpace.ofBlocks` is the address space with these two banks, and
every operation on it gives such an address space again, with the same program.
-/

namespace Cabinet

/-- The bytes of one bank of the machine. -/
abbrev Block := { b : ByteArray // b.size = 0x2000 }

/-- A block of zeros. -/
def Block.zeros : Block := ⟨Bytes.zeros 0x2000, Bytes.size_zeros _⟩

/-- A block with bytes replaced from an offset on. -/
def Block.overwrite (b : Block) (offset : Nat) (data : ByteArray) : Block :=
  ⟨Bytes.overwrite b.val offset data, by rw [Bytes.size_overwrite, b.property]⟩

/-- A block with one byte replaced. -/
def Block.set (b : Block) (i : Nat) (h : i < 0x2000) (v : UInt8) : Block :=
  ⟨b.val.set i v (by rw [b.property]; exact h), by rw [Bytes.size_set, b.property]⟩

theorem Block.overwrite_zero (b data : Block) : b.overwrite 0 data.val = data :=
  Subtype.ext (Bytes.overwrite_zero _ _ (by rw [b.property, data.property]))

/-! ### The two banks -/

namespace Bank

/-- The bank of the program. -/
def program (rom : Block) : Bank where
  base := Board.romBase
  contents := rom.val
  readOnly := true
  nonempty := by rw [rom.property]; decide
  fits := by rw [rom.property]; decide

/-- The bank that can be written. -/
def work (ram : Block) : Bank where
  base := Board.ramBase
  contents := ram.val
  readOnly := false
  nonempty := by rw [ram.property]; decide
  fits := by rw [ram.property]; decide

theorem read_of_contains {b : Bank} {a : UInt16} (h : b.contains a = true) :
    b.read a = Bytes.get b.contents (b.offset a) := by
  unfold read
  rw [dif_pos h, Bytes.get_of_lt (offset_lt_size h)]

variable (rom ram : Block) (a : UInt16) (v : UInt8)

theorem stop_program : (program rom).stop = 0x2000 := by
  show 0 + rom.val.size = _
  rw [rom.property]

theorem stop_work : (work ram).stop = 0x4000 := by
  show 0x2000 + ram.val.size = _
  rw [ram.property]

theorem overlaps_program (n : Nat) : (program rom).overlaps Board.ramBase n = false := by
  rw [overlaps, stop_program]
  rfl

theorem contains_program : (program rom).contains a = decide (a.toNat < 0x2000) := by
  rw [Bool.eq_iff_iff, contains_iff, stop_program, decide_eq_true_eq]
  exact ⟨And.right, fun h => ⟨Nat.zero_le _, h⟩⟩

theorem contains_work :
    (work ram).contains a = decide (0x2000 ≤ a.toNat ∧ a.toNat < 0x4000) := by
  rw [Bool.eq_iff_iff, contains_iff, stop_work, decide_eq_true_eq]
  rfl

theorem write_program : (program rom).write a v = program rom := by
  unfold write
  rw [dif_neg fun h => Bool.noConfusion h.2]

theorem write_work : ∃ ram', (work ram).write a v = work ram' := by
  unfold write
  split
  · next h =>
    rw [contains_work, decide_eq_true_eq] at h
    exact ⟨ram.set (a.toNat - 0x2000) (by omega) v, rfl⟩
  · exact ⟨ram, rfl⟩

end Bank

/-! ### The address space -/

namespace AddressSpace

/-- A bank that overlaps no other is registered in its place. -/
theorem register_bank (s : AddressSpace) (b : Bank) {n : Nat} (hn : b.size = n)
    {i : Option ByteArray} (hi : i.getD (Bytes.zeros n) = b.contents)
    (hb : s.banks.find? (·.overlaps b.base n) = none) :
    ∃ t, s.register b.base n i b.readOnly = .ok t ∧ t.banks = insertBank b s.banks := by
  subst hn
  have nonempty : b.size ≠ 0 := Nat.ne_of_gt b.nonempty
  have fits : ¬0x10000 < b.base.toNat + b.size := Nat.not_lt.2 b.fits
  unfold register
  rw [dif_neg nonempty, dif_neg fits]
  split
  · next other ho => rw [hb] at ho; cases ho
  · simp only [hi]
    rw [dif_pos (show b.contents.size = b.size from rfl)]
    exact ⟨_, rfl, rfl⟩

theorem eq_of_banks {s t : AddressSpace} (h : s.banks = t.banks) : s = t := by
  cases s
  cases t
  congr

/-- The address space of the machine. -/
def ofBlocks (rom ram : Block) : AddressSpace where
  banks := [.program rom, .work ram]
  ordered := by
    rw [List.pairwise_pair]
    show (Bank.program rom).stop ≤ 0x2000
    exact Nat.le_of_eq (Bank.stop_program rom)

variable (rom ram : Block) (a : UInt16) (v : UInt8)

theorem bankOf?_ofBlocks : (ofBlocks rom ram).bankOf? a =
    if a.toNat < 0x2000 then some (.program rom)
    else if a.toNat < 0x4000 then some (.work ram) else none := by
  show List.find? _ [Bank.program rom, Bank.work ram] = _
  rw [List.find?_cons, List.find?_cons, Bank.contains_program, Bank.contains_work, List.find?_nil]
  by_cases hr : a.toNat < 0x2000
  · rw [decide_eq_true hr, if_pos hr]
  · rw [decide_eq_false hr, if_neg hr]
    by_cases hw : a.toNat < 0x4000
    · rw [decide_eq_true ⟨Nat.le_of_not_lt hr, hw⟩, if_pos hw]
    · rw [decide_eq_false fun h => hw h.2, if_neg hw]

/-- **What is read**: below 0x2000 the program, then the other bank; above both of them zero. -/
theorem read_ofBlocks : (ofBlocks rom ram).read a =
    if a.toNat < 0x2000 then Bytes.get rom.val a.toNat
    else Bytes.get ram.val (a.toNat - 0x2000) := by
  unfold read
  rw [bankOf?_ofBlocks]
  by_cases hr : a.toNat < 0x2000
  · rw [if_pos hr, if_pos hr]
    exact Bank.read_of_contains (by rw [Bank.contains_program]; exact decide_eq_true hr)
  · rw [if_neg hr, if_neg hr]
    by_cases hw : a.toNat < 0x4000
    · rw [if_pos hw]
      exact Bank.read_of_contains (by rw [Bank.contains_work]; exact decide_eq_true ⟨by omega, hw⟩)
    · -- Above both banks the distance is past the end of the second one, where `Bytes.get` is zero.
      rw [if_neg hw, Bytes.get_of_le (by rw [ram.property]; omega)]

/-- A write changes the bank that can be written, if any. -/
theorem write_ofBlocks : ∃ ram', (ofBlocks rom ram).write a v = ofBlocks rom ram' := by
  obtain ⟨ram', h⟩ := Bank.write_work ram a v
  refine ⟨ram', eq_of_banks ?_⟩
  show [(Bank.program rom).write a v, (Bank.work ram).write a v] = _
  rw [Bank.write_program, h]
  rfl

theorem overwrite_ramBase_ofBlocks (offset : Nat) (data : ByteArray) :
    (ofBlocks rom ram).overwrite Board.ramBase offset data =
      ofBlocks rom (ram.overwrite offset data) :=
  eq_of_banks rfl

theorem bank?_ofBlocks : (ofBlocks rom ram).bank? Board.ramBase = some (.work ram) := rfl

end AddressSpace

/-! ### The memory of a new machine -/

namespace Machine

/-- The program as it stands in memory: a jump in the place of its first byte. -/
def patched (program : Block) : Block := program.overwrite 0 (Bytes.ofList [patchByte])

/-- Only the first byte of the program is not that of the chips. -/
theorem get_patched (program : Block) (i : Nat) :
    Bytes.get (patched program).val i = if i = 0 then patchByte else Bytes.get program.val i := by
  have one : (Bytes.ofList [patchByte]).size = 1 := rfl
  show Bytes.get (Bytes.overwrite program.val 0 (Bytes.ofList [patchByte])) i = _
  rw [Bytes.get_overwrite _ _ _ (by rw [one, program.property]; decide), one]
  by_cases hi : i = 0
  · rw [if_pos (by omega), if_pos hi, hi]
    rfl
  · rw [if_neg (by omega), if_neg hi]

theorem memoryOf_eq (program : Block) :
    memoryOf program.val = .ok (.ofBlocks (patched program) .zeros) := by
  obtain ⟨s, hs, banks⟩ := AddressSpace.register_bank .empty (.program program) program.property
    (i := some program.val) rfl rfl
  have one : (s.overwrite Board.romBase 0 (Bytes.ofList [patchByte])).banks =
      [.program (patched program)] := by
    show s.banks.map _ = _
    rw [banks]
    rfl
  have apart : (s.overwrite Board.romBase 0 (Bytes.ofList [patchByte])).banks.find?
      (·.overlaps Board.ramBase 0x2000) = none := by
    rw [one, List.find?_singleton, Bank.overlaps_program]
    rfl
  obtain ⟨t, ht, banks⟩ := AddressSpace.register_bank
    (s.overwrite Board.romBase 0 (Bytes.ofList [patchByte])) (.work .zeros)
    (Bytes.size_zeros 0x2000) (i := none) rfl apart
  rw [one] at banks
  rw [show t = .ofBlocks (patched program) .zeros from AddressSpace.eq_of_banks banks] at ht
  exact bind_eq_ok_iff.2 ⟨s, hs, ht⟩

end Machine

end Cabinet
