import Cabinet.Proofs.Board.Access
import Cabinet.Proofs.Cpu.Encoding
import Cabinet.Proofs.Memory.Refinement
/-!
# Cells

A bus may do anything when it is accessed. Where it behaves as memory is said address by address: what
is read at a cell is not changed by reading (`Bus.Holds`), if the cell takes writes it is what was
written last (`Bus.Stores`), and a write to one cell leaves another as it is (`Bus.Apart`). On a board
all addresses are such cells, apart from each other, and those of a bank that is not protected take
writes.
-/

namespace Cabinet

/-! ### Cells of a bus -/

namespace Bus

variable {σ : Type} [Bus σ] {P Q : σ → Prop} {a b : UInt16}

/-- The byte that would be read at an address. -/
def peek (a : UInt16) (s : σ) : UInt8 := (Bus.read a s).1

/-- On a bus with `P`, reading does not change what is read at `a`. -/
def Holds (P : σ → Prop) (a : UInt16) : Prop :=
  ∀ (b : UInt16) {s : σ}, P s → peek a (Bus.read b s).2 = peek a s

/-- On a bus with `P`, what is read at `a` stays, and is what was written there last. -/
structure Stores (P : σ → Prop) (a : UInt16) : Prop where
  /-- Reading changes nothing. -/
  holds : Holds P a
  /-- What is written is read back. -/
  stored : ∀ (x : UInt8) {s : σ}, P s → peek a (Bus.write a x s) = x

/-- On a bus with `P`, writing to `b` does not change what is read at `a`. -/
def Apart (P : σ → Prop) (b a : UInt16) : Prop :=
  ∀ (x : UInt8) {s : σ}, P s → peek a (Bus.write b x s) = peek a s

theorem Stores.mono (h : Stores P a) (le : ∀ s, Q s → P s) : Stores Q a where
  holds b s hs := h.holds b (le s hs)
  stored x s hs := h.stored x (le s hs)

theorem Keeps.and (hP : Keeps P) (hQ : Keeps Q) : Keeps fun s => P s ∧ Q s where
  read a _ h := ⟨hP.read a h.1, hQ.read a h.2⟩
  write a x _ h := ⟨hP.write a x h.1, hQ.write a x h.2⟩
  input a _ h := ⟨hP.input a h.1, hQ.input a h.2⟩
  output a x _ h := ⟨hP.output a x h.1, hQ.output a x h.2⟩

end Bus

/-! ### Cells of an address space -/

namespace AddressSpace

variable {s : AddressSpace} {a b : UInt16}

theorem read_write_of_ne (h : b ≠ a) (v : UInt8) : (s.write a v).read b = s.read b := by
  rw [read_toMap, read_toMap, toMap_write, MemoryMap.read, MemoryMap.read, MemoryMap.cell_write,
    if_neg h]

theorem read_write_self {x : UInt8} (h : s.toMap.cell a = some ⟨x, false⟩) (v : UInt8) :
    (s.write a v).read a = v := by
  rw [read_toMap, toMap_write, MemoryMap.read, MemoryMap.cell_write, if_pos rfl, h]
  rfl

end AddressSpace

/-! ### Cells of a board -/

namespace Board

/-- The address belongs to a bank that takes writes. -/
def Writable (a : UInt16) (board : Board) : Prop :=
  ∃ x, board.memory.toMap.cell a = some ⟨x, false⟩

theorem keeps_writable (a : UInt16) : Bus.Keeps (Writable a) where
  read _ _ h := h
  write b v board := by
    rintro ⟨x, h⟩
    show ∃ y, (board.memory.write b v).toMap.cell a = some ⟨y, false⟩
    rw [AddressSpace.toMap_write, MemoryMap.cell_write]
    by_cases same : a = b
    · subst same
      rw [if_pos rfl, h]
      exact ⟨v, rfl⟩
    · rw [if_neg same]
      exact ⟨x, h⟩
  input _ _ h := h
  output b v board := by
    rintro ⟨x, h⟩
    obtain ⟨shifter, eq⟩ := board.output_eq_shifter b v
    show ∃ y, (board.output b v).memory.toMap.cell a = some ⟨y, false⟩
    rw [eq]
    exact ⟨x, h⟩

theorem holds (P : Board → Prop) (a : UInt16) : Bus.Holds P a := fun _ _ _ => rfl

theorem apart (P : Board → Prop) {a b : UInt16} (h : a ≠ b) : Bus.Apart P b a :=
  fun x _ _ => AddressSpace.read_write_of_ne h x

theorem stores (a : UInt16) : Bus.Stores (Writable a) a where
  holds := holds _ a
  stored v _ h := AddressSpace.read_write_self h.choose_spec v

/-- A bank of all addresses that takes writes, and begins with the given bytes. -/
def flatBank (code : List UInt8) : Bank where
  base := 0x0000
  contents := Bytes.ofFn 0x10000 fun i => code.getD i 0
  readOnly := false
  nonempty := by rw [Bytes.size_ofFn]; decide
  fits := by rw [Bytes.size_ofFn]; decide

/-- A board with nothing but this bank. -/
def flat (code : List UInt8) : Board where
  memory := { banks := [flatBank code], ordered := List.pairwise_singleton _ _ }

theorem cell_flat (code : List UInt8) (a : UInt16) :
    (flat code).memory.toMap.cell a = some ⟨code.getD a.toNat 0, false⟩ := by
  have size : (flatBank code).contents.size = 0x10000 := Bytes.size_ofFn ..
  have inside : (flatBank code).contains a = true := by
    rw [Bank.contains_iff, Bank.stop, Bank.size, size]
    exact ⟨Nat.zero_le _, Nat.lt_of_lt_of_le a.toNat_lt (Nat.le_add_left ..)⟩
  have offset : (flatBank code).offset a = a.toNat := Nat.sub_zero _
  have byte : (flatBank code).read a = code.getD a.toNat 0 := by
    rw [Bank.read_of_contains inside, offset, Bytes.get_of_lt (size ▸ a.toNat_lt)]
    exact Bytes.getElem_ofFn ..
  rw [AddressSpace.cell_toMap (List.mem_singleton_self _) inside, Bank.cell, byte]
  rfl

theorem writable_flat (code : List UInt8) (a : UInt16) : Writable a (flat code) :=
  ⟨_, cell_flat code a⟩

theorem read_flat (code : List UInt8) (a : UInt16) :
    Bus.read a (flat code) = (code.getD a.toNat 0, flat code) := by
  show ((flat code).memory.read a, flat code) = _
  rw [AddressSpace.read_toMap, MemoryMap.read, cell_flat]
  rfl

end Board

theorem Circuit.opcode_flat (cpu : Cpu) (code : List UInt8) :
    (Circuit.mk cpu (Board.flat code)).opcode = code.getD cpu.pc.toNat 0 :=
  congrArg Prod.fst (Board.read_flat code cpu.pc)

end Cabinet
