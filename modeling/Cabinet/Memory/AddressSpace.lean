import Cabinet.Memory.Bank
import Cabinet.Text.Hex
/-!
# The address space

An address space is a row of banks in the order of their addresses, no two of which answer the same
address. An address that no bank answers reads as zero, and writing to it does nothing. New banks are
registered one at a time, and refused with a reason if they cannot take their place (`BankError`).
-/

namespace Cabinet

/-- Why a bank is refused. -/
inductive BankError where
  /-- The bank would hold no byte. -/
  | empty (base : UInt16)
  /-- The bank would end beyond the address range. -/
  | outOfRange (base : UInt16) (length : Nat)
  /-- Another bank answers some of the addresses. -/
  | overlap (base : UInt16) (length : Nat) (other : UInt16)
  /-- The initial contents do not have the length of the bank. -/
  | contentsLength (expected actual : Nat)
deriving DecidableEq, Inhabited

/-- The wording of the reason. -/
def BankError.message : BankError → String
  | .empty base => s!"bank at 0x{Text.hexWord base} has zero length"
  | .outOfRange base length =>
    s!"bank at 0x{Text.hexWord base} with length {length} extends past 0xFFFF"
  | .overlap base length other =>
    s!"bank at 0x{Text.hexWord base} (length {length}) overlaps bank at 0x{Text.hexWord other}"
  | .contentsLength expected actual =>
    s!"initial contents are {actual} bytes, bank length is {expected}"

/-- Banks in the order of their addresses. -/
structure AddressSpace where
  /-- The banks, lowest first. -/
  banks : List Bank := []
  /-- Each bank ends before the next begins. -/
  ordered : banks.Pairwise (·.stop ≤ ·.base.toNat) := by exact .nil

namespace AddressSpace

/-- The address space without banks. -/
def empty : AddressSpace := {}

/-- The bank that answers an address. -/
@[inline] def bankOf? (s : AddressSpace) (a : UInt16) : Option Bank :=
  s.banks.find? (·.contains a)

/-- Some bank answers the address. -/
def isMapped (s : AddressSpace) (a : UInt16) : Bool := s.banks.any (·.contains a)

/-- The byte at an address, zero where there is no bank. -/
@[inline] def read (s : AddressSpace) (a : UInt16) : UInt8 :=
  match s.bankOf? a with
  | some b => b.read a
  | none => 0

/-- Changes banks in their places. -/
@[inline] def mapBanks (s : AddressSpace) (f : Bank → Bank)
    (base_eq : ∀ b, (f b).base = b.base) (stop_eq : ∀ b, (f b).stop = b.stop) : AddressSpace where
  banks := s.banks.map f
  ordered := List.pairwise_map.2 <| s.ordered.imp fun h => by rw [base_eq, stop_eq]; exact h

/-- Writes a byte. Where there is no bank, or a read-only one, nothing happens. -/
@[inline] def write (s : AddressSpace) (a : UInt16) (v : UInt8) : AddressSpace :=
  s.mapBanks (·.write a v) (fun b => b.base_write a v) (fun b => b.stop_write a v)

/-- The bank that begins at an address. -/
def bank? (s : AddressSpace) (base : UInt16) : Option Bank := s.banks.find? (·.base == base)

/-- Replaces bytes of the bank that begins at an address, from an offset in that bank on. -/
def overwrite (s : AddressSpace) (base : UInt16) (offset : Nat) (data : ByteArray) : AddressSpace :=
  s.mapBanks (fun b => if b.base == base then b.overwrite offset data else b)
    (fun b => by split <;> simp) (fun b => by split <;> simp)

/-! ### Registering banks -/

/-- Puts a bank in front of the first one that begins above it. -/
def insertBank (b : Bank) : List Bank → List Bank
  | [] => [b]
  | c :: cs => if b.base < c.base then b :: c :: cs else c :: insertBank b cs

theorem mem_insertBank {b c : Bank} {cs : List Bank} :
    c ∈ insertBank b cs ↔ c = b ∨ c ∈ cs := by
  induction cs with
  | nil => simp [insertBank]
  | cons d ds ih =>
    unfold insertBank
    split
    · simp
    · simp only [List.mem_cons, ih, or_left_comm]

/-- A bank that overlaps none keeps the order. -/
theorem pairwise_insertBank {b : Bank} {cs : List Bank}
    (hcs : cs.Pairwise (·.stop ≤ ·.base.toNat))
    (hb : ∀ c ∈ cs, c.overlaps b.base b.size = false) :
    (insertBank b cs).Pairwise (·.stop ≤ ·.base.toNat) := by
  induction cs with
  | nil => simp [insertBank]
  | cons c cs ih =>
    have hc := hb c (by simp)
    have hn := b.nonempty
    simp only [Bank.overlaps, Bool.and_eq_false_iff, decide_eq_false_iff_not] at hc
    rw [List.pairwise_cons] at hcs
    unfold insertBank
    split
    · next hlt =>
      have hlt := UInt16.lt_iff_toNat_lt.1 hlt
      have hbc : b.stop ≤ c.base.toNat := by simp only [Bank.stop, Bank.size] at *; omega
      refine List.pairwise_cons.2 ⟨fun d hd => ?_, List.pairwise_cons.2 hcs⟩
      rcases List.mem_cons.1 hd with rfl | hd
      · exact hbc
      · have := hcs.1 d hd
        simp only [Bank.stop] at *
        omega
    · next hlt =>
      rw [UInt16.lt_iff_toNat_lt] at hlt
      refine List.pairwise_cons.2 ⟨fun d hd => ?_, ih hcs.2 fun d hd => hb d (by simp [hd])⟩
      rcases mem_insertBank.1 hd with rfl | hd
      · simp only [Bank.stop, Bank.size] at *
        omega
      · exact hcs.1 d hd

/-- Registers a bank of `length` bytes, which are zero unless its contents are given. -/
def register (s : AddressSpace) (base : UInt16) (length : Nat) (initial : Option ByteArray)
    (readOnly : Bool) : Except BankError AddressSpace :=
  if h0 : length = 0 then .error (.empty base)
  else if h1 : 0x10000 < base.toNat + length then .error (.outOfRange base length)
  else
    match h2 : s.banks.find? (·.overlaps base length) with
    | some other => .error (.overlap base length other.base)
    | none =>
      let contents := initial.getD (Bytes.zeros length)
      if h3 : contents.size = length then
        let bank : Bank := { base, contents, readOnly, nonempty := by omega, fits := by omega }
        .ok {
          banks := insertBank bank s.banks
          ordered := pairwise_insertBank s.ordered fun c hc => by
            simpa [bank, Bank.size, h3] using List.find?_eq_none.1 h2 c hc }
      else .error (.contentsLength length contents.size)

end AddressSpace

end Cabinet
