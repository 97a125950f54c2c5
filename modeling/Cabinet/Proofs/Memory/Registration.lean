import Cabinet.Proofs.Memory.Layout
import Cabinet.Proofs.Memory.Lookup
import Mathlib.Data.List.Perm.Basic
/-!
# Registering banks

A registration is accepted if and only if the bank it asks for can exist and overlaps none that is
there (`AddressSpace.register_eq_ok_iff`), and then the row holds one bank more. So registrations
that are apart do not get in each other's way, and since the row is ordered by the bases, it does
not tell in which order they came (`AddressSpace.after_perm`).
-/

namespace Cabinet

/-! ### What is asked for -/

/-- A bank to be registered, and what is put into it through the bytes that are handed back. -/
structure Registration where
  /-- The lowest address. -/
  base : UInt16
  /-- The number of bytes. -/
  length : Nat
  /-- The bytes at first; zeros if they are not given. -/
  initial : Option ByteArray
  /-- Writes are ignored. -/
  readOnly : Bool
  /-- Bytes put in afterwards, with their distances from the base. -/
  fill : List (Nat × ByteArray) := []

/-- Puts bytes into a bank, one string after the other. -/
def Bank.filled (b : Bank) (fill : List (Nat × ByteArray)) : Bank :=
  fill.foldl (fun b item => b.overwrite item.1 item.2) b

@[simp] theorem Bank.base_filled (b : Bank) (fill : List (Nat × ByteArray)) :
    (b.filled fill).base = b.base := by
  induction fill generalizing b with
  | nil => rfl
  | cons item fill ih => exact ih _

@[simp] theorem Bank.stop_filled (b : Bank) (fill : List (Nat × ByteArray)) :
    (b.filled fill).stop = b.stop := by
  induction fill generalizing b with
  | nil => rfl
  | cons item fill ih => exact (ih _).trans (b.stop_overwrite item.1 item.2)

namespace Registration

/-- The bytes at first. -/
def contents (r : Registration) : ByteArray := r.initial.getD (Bytes.zeros r.length)

/-- The bank can exist: it has a byte, it ends within the address range, and its contents have its
length. -/
def Sound (r : Registration) : Prop :=
  0 < r.length ∧ r.base.toNat + r.length ≤ 0x10000 ∧ r.contents.size = r.length

instance (r : Registration) : Decidable r.Sound := inferInstanceAs (Decidable (_ ∧ _ ∧ _))

/-- One of two registrations ends before the other begins. -/
def Apart (r q : Registration) : Prop :=
  r.base.toNat + r.length ≤ q.base.toNat ∨ q.base.toNat + q.length ≤ r.base.toNat

instance (r q : Registration) : Decidable (r.Apart q) := inferInstanceAs (Decidable (_ ∨ _))

/-- The bank of a sound registration, before anything is put into it. -/
def bank (r : Registration) (h : r.Sound) : Bank where
  base := r.base
  contents := r.contents
  readOnly := r.readOnly
  nonempty := Nat.lt_of_lt_of_eq h.1 h.2.2.symm
  fits := h.2.2.symm ▸ h.2.1

theorem stop_bank {r : Registration} (h : r.Sound) : (r.bank h).stop = r.base.toNat + r.length :=
  congrArg (r.base.toNat + ·) h.2.2

/-- The bank of a registration is not in the way of one that is apart. -/
theorem Apart.overlaps_filled {r q : Registration} (apart : r.Apart q) (h : r.Sound) :
    ((r.bank h).filled r.fill).overlaps q.base q.length = false := by
  rw [Bank.overlaps, Bank.stop_filled, Bank.base_filled, stop_bank h, Bool.and_eq_false_iff,
    decide_eq_false_iff_not, decide_eq_false_iff_not]
  rcases apart with before | behind
  · exact .inl (Nat.not_lt.2 before)
  · exact .inr (Nat.not_lt.2 behind)

end Registration

/-- What a caller can do that may change an address space. -/
inductive MemoryChange where
  /-- A bank is registered and filled; a refused registration is passed over. -/
  | register (r : Registration)
  /-- A byte is written. -/
  | write (a : UInt16) (v : UInt8)
  /-- Bytes of the bank that begins at an address are replaced. -/
  | overwrite (base : UInt16) (offset : Nat) (data : ByteArray)

namespace AddressSpace

/-- Puts bytes into the bank that begins at an address, one string after the other. -/
def fill (s : AddressSpace) (base : UInt16) (items : List (Nat × ByteArray)) : AddressSpace :=
  items.foldl (fun s item => s.overwrite base item.1 item.2) s

/-- The address space after a change. -/
def change (s : AddressSpace) : MemoryChange → AddressSpace
  | .register r =>
    match s.register r.base r.length r.initial r.readOnly with
    | .ok t => t.fill r.base r.fill
    | .error _ => s
  | .write a v => s.write a v
  | .overwrite base offset data => s.overwrite base offset data

/-- The address space after changes. -/
def after (s : AddressSpace) (changes : List MemoryChange) : AddressSpace := changes.foldl change s

/-- No bank is in the way of a registration. -/
def Free (s : AddressSpace) (r : Registration) : Prop :=
  ∀ c ∈ s.banks, c.overlaps r.base r.length = false

instance (s : AddressSpace) (r : Registration) : Decidable (s.Free r) :=
  inferInstanceAs (Decidable (∀ c ∈ s.banks, _))

/-- The bank that a registration leaves in the row, if it is accepted. -/
def taken? (s : AddressSpace) (r : Registration) : Option Bank :=
  if h : r.Sound ∧ s.Free r then some ((r.bank h.1).filled r.fill) else none

variable {s t : AddressSpace} {b : Bank} {r : Registration}

/-! ### One registration -/

/-- A bank that can exist and has nothing in its way is registered. -/
theorem exists_register (sound : r.Sound) (free : s.Free r) :
    ∃ t, s.register r.base r.length r.initial r.readOnly = .ok t ∧
      t.banks = insertBank (r.bank sound) s.banks := by
  have none : s.banks.find? (·.overlaps r.base r.length) = none :=
    List.find?_eq_none.2 fun c hc => Bool.eq_false_iff.1 (free c hc)
  exact register_bank s (r.bank sound) sound.2.2 rfl none

/-- **When a bank is accepted**: if it can exist and has nothing in its way. -/
theorem register_eq_ok_iff : s.register r.base r.length r.initial r.readOnly = .ok t ↔
    ∃ h : r.Sound, s.Free r ∧ t.banks = insertBank (r.bank h) s.banks := by
  constructor
  · intro ok
    unfold register at ok
    split at ok
    · cases ok
    next filled =>
    split at ok
    · cases ok
    next fits =>
    split at ok
    · cases ok
    next free =>
    dsimp only at ok
    split at ok
    · next size =>
      have sound : r.Sound := ⟨Nat.pos_of_ne_zero filled, Nat.not_lt.1 fits, size⟩
      cases ok
      refine ⟨sound, fun c hc => ?_, rfl⟩
      exact Bool.eq_false_iff.2 (List.find?_eq_none.1 free c hc)
    · cases ok
  · rintro ⟨sound, free, banks⟩
    obtain ⟨t', ok, banks'⟩ := exists_register sound free
    rwa [eq_of_banks (banks.trans banks'.symm)]

/-- A registration that is accepted is followed by what is put into the bank. -/
theorem change_register_of_ok (h : s.register r.base r.length r.initial r.readOnly = .ok t) :
    s.change (.register r) = t.fill r.base r.fill := by
  rw [change, h]

/-- A registration that is refused changes nothing. -/
theorem change_register_of_refused (h : ¬(r.Sound ∧ s.Free r)) : s.change (.register r) = s := by
  rw [change]
  cases ok : s.register r.base r.length r.initial r.readOnly with
  | ok t =>
    obtain ⟨sound, free, -⟩ := register_eq_ok_iff.1 ok
    exact absurd ⟨sound, free⟩ h
  | error e => rfl

/-! ### Filling the bank -/

theorem map_insertBank (b : Bank) (cs : List Bank) (f : Bank → Bank)
    (base : ∀ c, (f c).base = c.base) : (insertBank b cs).map f = insertBank (f b) (cs.map f) := by
  induction cs with
  | nil => rfl
  | cons c cs ih =>
    rw [insertBank, List.map_cons, insertBank, base, base, apply_ite (List.map f), List.map_cons,
      List.map_cons, List.map_cons, ih]

/-- What is put into the bank with a base goes into no other. -/
theorem banks_overwrite {cs : List Bank} (banks : s.banks = insertBank b cs)
    (new : ∀ c ∈ cs, c.base ≠ b.base) (offset : Nat) (data : ByteArray) :
    (s.overwrite b.base offset data).banks = insertBank (b.overwrite offset data) cs := by
  have others : cs.map (fun c => if c.base == b.base then c.overwrite offset data else c) = cs := by
    refine (List.map_congr_left fun c hc => ?_).trans (List.map_id cs)
    rw [if_neg (by rw [beq_iff_eq]; exact new c hc)]
    rfl
  show s.banks.map _ = _
  rw [banks, map_insertBank _ _ _ fun c => by split <;> simp, others, if_pos (beq_self_eq_true _)]

theorem banks_fill {cs : List Bank} (items : List (Nat × ByteArray)) :
    ∀ {s : AddressSpace} {b : Bank}, s.banks = insertBank b cs → (∀ c ∈ cs, c.base ≠ b.base) →
      (s.fill b.base items).banks = insertBank (b.filled items) cs := by
  induction items with
  | nil => exact fun banks _ => banks
  | cons item items ih =>
    intro s b banks new
    exact ih (banks_overwrite banks new item.1 item.2) new

/-- A bank that is not in the way begins elsewhere. -/
theorem base_ne_of_free (sound : r.Sound) (free : s.Free r) {c : Bank} (hc : c ∈ s.banks) :
    c.base ≠ r.base := by
  intro same
  have apart := free c hc
  have nonempty := c.base_lt_stop
  have length := sound.1
  rw [Bank.overlaps, Bool.and_eq_false_iff, decide_eq_false_iff_not, decide_eq_false_iff_not,
    same] at apart
  rw [same] at nonempty
  omega

/-- A registration that is accepted leaves its bank in the row. -/
theorem banks_change_register (h : s.taken? r = some b) :
    (s.change (.register r)).banks = insertBank b s.banks := by
  rw [taken?] at h
  split at h
  · next accepted =>
    cases h
    obtain ⟨sound, free⟩ := accepted
    obtain ⟨t, ok, banks⟩ := exists_register sound free
    rw [change_register_of_ok ok]
    exact banks_fill r.fill banks fun c hc => base_ne_of_free sound free hc
  · cases h

/-! ### Many registrations -/

theorem perm_insertBank (b : Bank) (cs : List Bank) : (insertBank b cs).Perm (b :: cs) := by
  induction cs with
  | nil => exact .rfl
  | cons c cs ih =>
    rw [insertBank]
    split
    · exact .rfl
    · exact (ih.cons c).trans (.swap b c cs)

/-- After a registration another one that is apart leaves the same bank as before. -/
theorem taken?_change_register {q : Registration} (apart : r.Apart q) :
    (s.change (.register r)).taken? q = s.taken? q := by
  by_cases h : r.Sound ∧ s.Free r
  · have banks : (s.change (.register r)).banks = _ :=
      banks_change_register (by rw [taken?, dif_pos h])
    have free : (s.change (.register r)).Free q ↔ s.Free q := by
      rw [Free, banks]
      constructor
      · intro free c hc
        exact free c (mem_insertBank.2 (.inr hc))
      · intro free c hc
        rcases mem_insertBank.1 hc with rfl | hc
        · exact apart.overlaps_filled h.1
        · exact free c hc
    simp only [taken?, free]
  · rw [change_register_of_refused h]

/-- Registrations that are apart leave in the row what each would have left alone. -/
theorem perm_after_register (l : List Registration) :
    ∀ s : AddressSpace, l.Pairwise Registration.Apart →
      (s.after (l.map .register)).banks.Perm (s.banks ++ l.filterMap s.taken?) := by
  induction l with
  | nil =>
    intro s _
    rw [List.filterMap_nil, List.append_nil]
    exact .rfl
  | cons r l ih =>
    intro s apart
    obtain ⟨first, rest⟩ := List.pairwise_cons.1 apart
    have others : l.filterMap (s.change (.register r)).taken? = l.filterMap s.taken? :=
      List.filterMap_congr fun q hq => taken?_change_register (first q hq)
    show ((s.change (.register r)).after (l.map .register)).banks.Perm _
    refine (ih _ rest).trans ?_
    rw [others, List.filterMap_cons]
    cases h : s.taken? r with
    | none =>
      have refused : ¬(r.Sound ∧ s.Free r) := fun accepted => by
        rw [taken?, dif_pos accepted] at h
        cases h
      rw [change_register_of_refused refused]
    | some b =>
      rw [banks_change_register h]
      refine ((perm_insertBank _ _).append_right _).trans ?_
      exact List.perm_middle.symm

/-- **The order does not tell**: registrations that are apart make the same row in every order. -/
theorem after_perm {l l' : List Registration} (s : AddressSpace)
    (apart : l.Pairwise Registration.Apart) (perm : l'.Perm l) :
    s.after (l'.map .register) = s.after (l.map .register) := by
  have apart' : l'.Pairwise Registration.Apart := perm.symm.pairwise apart fun h => Or.symm h
  have same : (s.after (l'.map .register)).banks.Perm (s.after (l.map .register)).banks :=
    (perm_after_register l' s apart').trans <|
      ((perm.filterMap s.taken?).append_left _).trans (perm_after_register l s apart).symm
  exact eq_of_banks (Bank.eq_of_mem_iff (pairwise_base _) (pairwise_base _) fun _ => same.mem_iff)

end AddressSpace

end Cabinet
