import Cabinet.Proofs.Memory.Refinement
/-!
# Which banks are accepted

A bank is in the way of a registration if the two have an address in common (`Registration.Meets`), and
comparing their ends tells whether they have (`Registration.overlaps_iff_meets`). The legal registrations
are those that nothing speaks against (`AddressSpace.Legal`); what speaks against the others is looked for
in a fixed order, and the first reason is named (`AddressSpace.Refused`). Since the row ascends, the first
bank in the way is the lowest (`AddressSpace.find?_overlaps_eq_some_iff`).

In the row itself a registration is a program (`AddressSpace.registerInPlace`): it checks, looks for the
position of the new bank by halving, moves the banks from there on, and hands back the bytes of the bank at
the position. It stops only where it refuses, and then before it has changed anything. That it accepts
what is legal, and that the bytes it hands back are those of the new bank, is `AddressSpace.accepts_legal`.
-/

namespace Cabinet

/-! ### What is in the way -/

/-- A bank answers one of the addresses asked for. -/
def Registration.Meets (r : Registration) (b : Bank) : Prop :=
  ∃ a, Within r.base 0 r.length a ∧ b.contains a = true

/-- **Comparing the ends** tells whether there is an address in common. -/
theorem Registration.overlaps_iff_meets {r : Registration} (nonempty : 0 < r.length) (b : Bank) :
    b.overlaps r.base r.length = true ↔ r.Meets b := by
  rw [Bank.overlaps, Bool.and_eq_true, decide_eq_true_eq, decide_eq_true_eq]
  constructor
  · rintro ⟨above, below⟩
    -- If there is one, the higher of the two bases is one.
    by_cases h : b.base.toNat ≤ r.base.toNat
    · refine ⟨r.base, ?_, (b.contains_iff r.base).2 ⟨h, above⟩⟩
      rw [Within]
      omega
    · refine ⟨b.base, ?_, b.contains_base⟩
      rw [Within]
      omega
  · rintro ⟨a, within, answers⟩
    rw [Within] at within
    rw [Bank.contains_iff] at answers
    omega

theorem Registration.size_contents_iff {r : Registration} :
    r.contents.size = r.length ↔ ∀ contents, r.initial = some contents → contents.size = r.length := by
  rw [Registration.contents]
  cases r.initial with
  | none => simp
  | some contents => simp

/-! ### Rows -/

theorem firstFailing_le {p : Nat → Bool} {lo hi : Nat} (h : lo ≤ hi) : firstFailing p lo hi ≤ hi := by
  fun_induction firstFailing p lo hi with
  | case1 lo hi open' holds ih => exact ih (by omega)
  | case2 lo hi open' fails ih => exact Nat.le_trans (ih (by omega)) (by omega)
  | case3 lo hi closed => exact h

theorem cut_le_length {α : Type} (p : α → Bool) (l : List α) : cut p l ≤ l.length :=
  firstFailing_le (Nat.zero_le _)

theorem cut_map {α β : Type} (p : β → Bool) (f : α → β) (l : List α) :
    cut p (l.map f) = cut (fun x => p (f x)) l := by
  rw [cut, cut, List.length_map]
  congr 1
  funext i
  rw [List.getElem?_map]
  cases l[i]? with
  | none => rfl
  | some x => rfl

/-- In a row in which `r` never turns back the first item of which `p` holds is the one that no other
such item comes before. -/
theorem find?_eq_some_iff_of_pairwise {α : Type} {p : α → Bool} {r : α → α → Prop} {l : List α} {x : α}
    (hl : l.Pairwise r) (asymm : ∀ x y, r x y → ¬r y x) :
    l.find? p = some x ↔ x ∈ l ∧ p x = true ∧ ∀ y ∈ l, p y = true → ¬r y x := by
  induction l with
  | nil => simp
  | cons z l ih =>
    obtain ⟨first, rest⟩ := List.pairwise_cons.1 hl
    by_cases hz : p z = true
    · rw [List.find?_cons_of_pos hz, Option.some_inj]
      constructor
      · rintro rfl
        refine ⟨List.mem_cons_self, hz, ?_⟩
        intro y hy _ back
        rcases List.mem_cons.1 hy with rfl | hy
        · exact asymm _ _ back back
        · exact asymm _ _ (first y hy) back
      · rintro ⟨hx, -, least⟩
        rcases List.mem_cons.1 hx with rfl | hx
        · rfl
        · exact absurd (first x hx) (least z List.mem_cons_self hz)
    · rw [List.find?_cons_of_neg hz, ih rest]
      constructor
      · rintro ⟨hx, px, least⟩
        refine ⟨List.mem_cons_of_mem _ hx, px, ?_⟩
        intro y hy py
        rcases List.mem_cons.1 hy with rfl | hy
        · exact absurd py hz
        · exact least y hy py
      · rintro ⟨hx, px, least⟩
        rcases List.mem_cons.1 hx with rfl | hx
        · exact absurd px hz
        · exact ⟨hx, px, fun y hy => least y (List.mem_cons_of_mem _ hy)⟩

namespace AddressSpace

variable {s t : AddressSpace} {r : Registration} {e : BankError} {b : Bank}

/-- **The first bank in the way is the lowest.** -/
theorem find?_overlaps_eq_some_iff (nonempty : 0 < r.length) :
    s.banks.find? (·.overlaps r.base r.length) = some b ↔
      b ∈ s.banks ∧ r.Meets b ∧ ∀ c ∈ s.banks, r.Meets c → b.base ≤ c.base := by
  rw [find?_eq_some_iff_of_pairwise s.pairwise_base fun _ _ => UInt16.lt_asymm]
  simp only [Registration.overlaps_iff_meets nonempty, UInt16.not_lt]

theorem find?_overlaps_eq_none_iff (nonempty : 0 < r.length) :
    s.banks.find? (·.overlaps r.base r.length) = none ↔ ∀ c ∈ s.banks, ¬r.Meets c := by
  simp only [List.find?_eq_none, Registration.overlaps_iff_meets nonempty]

theorem free_iff (nonempty : 0 < r.length) : s.Free r ↔ ∀ c ∈ s.banks, ¬r.Meets c := by
  simp only [Free, ← Bool.not_eq_true, Registration.overlaps_iff_meets nonempty]

/-! ### What is accepted -/

/-- Nothing speaks against a registration. -/
structure Legal (s : AddressSpace) (r : Registration) : Prop where
  /-- The bank has a byte. -/
  nonempty : 0 < r.length
  /-- It ends within the address range. -/
  fits : r.base.toNat + r.length ≤ 0x10000
  /-- No bank answers one of its addresses. -/
  apart : ∀ c ∈ s.banks, ¬r.Meets c
  /-- Contents that are given have its length. -/
  size : ∀ contents, r.initial = some contents → contents.size = r.length

/-- What speaks against a registration, and nothing that is looked for before. -/
inductive Refused (s : AddressSpace) (r : Registration) : BankError → Prop where
  /-- The bank has no byte. -/
  | empty (empty : r.length = 0) : Refused s r (.empty r.base)
  /-- It ends beyond the address range. -/
  | outOfRange (nonempty : 0 < r.length) (beyond : 0x10000 < r.base.toNat + r.length) :
    Refused s r (.outOfRange r.base r.length)
  /-- A bank is in its way, and none of those in its way is lower. -/
  | overlap (nonempty : 0 < r.length) (fits : r.base.toNat + r.length ≤ 0x10000) {b : Bank}
    (there : b ∈ s.banks) (meets : r.Meets b)
    (lowest : ∀ c ∈ s.banks, r.Meets c → b.base ≤ c.base) :
    Refused s r (.overlap r.base r.length b.base)
  /-- The contents that are given have another length. -/
  | contentsLength (nonempty : 0 < r.length) (fits : r.base.toNat + r.length ≤ 0x10000)
    (apart : ∀ c ∈ s.banks, ¬r.Meets c) {contents : ByteArray} (given : r.initial = some contents)
    (wrong : contents.size ≠ r.length) : Refused s r (.contentsLength r.length contents.size)

/-- **A registration is legal or refused.** -/
theorem legal_or_refused (s : AddressSpace) (r : Registration) : s.Legal r ∨ ∃ e, s.Refused r e := by
  rcases Nat.eq_zero_or_pos r.length with empty | nonempty
  · exact .inr ⟨_, .empty empty⟩
  rcases Nat.lt_or_ge 0x10000 (r.base.toNat + r.length) with beyond | fits
  · exact .inr ⟨_, .outOfRange nonempty beyond⟩
  cases found : s.banks.find? (·.overlaps r.base r.length) with
  | some b =>
    obtain ⟨there, meets, lowest⟩ := (find?_overlaps_eq_some_iff nonempty).1 found
    exact .inr ⟨_, .overlap nonempty fits there meets lowest⟩
  | none =>
    have apart := (find?_overlaps_eq_none_iff nonempty).1 found
    by_cases size : ∀ contents, r.initial = some contents → contents.size = r.length
    · exact .inl ⟨nonempty, fits, apart, size⟩
    · simp only [Classical.not_forall] at size
      obtain ⟨contents, given, wrong⟩ := size
      exact .inr ⟨_, .contentsLength nonempty fits apart given wrong⟩

theorem legal_iff : s.Legal r ↔ r.Sound ∧ s.Free r := by
  constructor
  · rintro ⟨nonempty, fits, apart, size⟩
    exact ⟨⟨nonempty, fits, Registration.size_contents_iff.2 size⟩, (free_iff nonempty).2 apart⟩
  · rintro ⟨⟨nonempty, fits, size⟩, free⟩
    exact ⟨nonempty, fits, (free_iff nonempty).1 free, Registration.size_contents_iff.1 size⟩

/-- What is refused is refused with that reason. -/
theorem register_of_refused (h : s.Refused r e) :
    s.register r.base r.length r.initial r.readOnly = .error e := by
  unfold register
  cases h with
  | empty empty => rw [dif_pos empty]
  | outOfRange nonempty beyond => rw [dif_neg (Nat.ne_of_gt nonempty), dif_pos beyond]
  | overlap nonempty fits there meets lowest =>
    have found := (find?_overlaps_eq_some_iff nonempty).2 ⟨there, meets, lowest⟩
    rw [dif_neg (Nat.ne_of_gt nonempty), dif_neg (Nat.not_lt.2 fits)]
    split
    · next other first =>
      rw [found] at first
      cases first
      rfl
    · next nothing =>
      rw [found] at nothing
      cases nothing
  | contentsLength nonempty fits apart given wrong =>
    have nothing := (find?_overlaps_eq_none_iff nonempty).2 apart
    rw [dif_neg (Nat.ne_of_gt nonempty), dif_neg (Nat.not_lt.2 fits)]
    split
    · next other first =>
      rw [nothing] at first
      cases first
    · rw [given]
      exact dif_neg wrong

/-- **What is refused**, and with which reason. -/
theorem register_eq_error_iff :
    s.register r.base r.length r.initial r.readOnly = .error e ↔ s.Refused r e := by
  constructor
  · intro refused
    rcases s.legal_or_refused r with legal | ⟨e', h⟩
    · obtain ⟨sound, free⟩ := legal_iff.1 legal
      obtain ⟨t, ok, -⟩ := exists_register sound free
      rw [refused] at ok
      cases ok
    · rw [register_of_refused h] at refused
      cases refused
      exact h
  · exact register_of_refused

/-- **What is accepted.** -/
theorem exists_register_iff :
    (∃ t, s.register r.base r.length r.initial r.readOnly = .ok t) ↔ s.Legal r := by
  rw [legal_iff]
  constructor
  · rintro ⟨t, ok⟩
    obtain ⟨sound, free, -⟩ := register_eq_ok_iff.1 ok
    exact ⟨sound, free⟩
  · rintro ⟨sound, free⟩
    obtain ⟨t, ok, -⟩ := exists_register sound free
    exact ⟨t, ok⟩

/-! ### The position of a bank -/

/-- The position of a new bank: behind those that begin below it. -/
def positionFor (s : AddressSpace) (r : Registration) : Nat :=
  cut (fun c => decide (c.base < r.base)) s.banks

theorem positionFor_le_length (s : AddressSpace) (r : Registration) :
    s.positionFor r ≤ s.banks.length := cut_le_length _ _

/-! ### In the row -/

/-- Why a program that changes a row of banks stops before its end. -/
inductive Fault where
  /-- The bank is refused. -/
  | refused (e : BankError)
  /-- The row does not have the position. -/
  | position (i length : Nat)

/-- A program that changes a row of banks in its place. What it has done stays done if it stops. -/
abbrev Placing := ExceptT Fault (StateM (List BankView))

/-- Runs a program; gives the row as the program leaves it. -/
def Placing.applyTo {α : Type} (p : Placing α) (row : List BankView) :
    Except Fault α × List BankView := p.run.run row

/-- Refuses a bank if there is a reason. -/
def refuseIf (reason : Prop) [Decidable reason] (e : BankError) : Placing Unit :=
  if reason then throw (.refused e) else pure ()

/-- Refuses a bank if another one is in its way, the first one in the row. -/
def refuseOverlap (r : Registration) : Placing Unit := do
  match (← get).find? fun c =>
      decide (r.base.toNat < c.base.toNat + c.contents.size) &&
        decide (c.base.toNat < r.base.toNat + r.length) with
  | some other => throw (.refused (.overlap r.base r.length other.base))
  | none => pure ()

/-- The bytes at first, those that are given if they have the right length. -/
def firstBytes (r : Registration) : Placing ByteArray :=
  match r.initial with
  | some contents =>
    if contents.size = r.length then pure contents
    else throw (.refused (.contentsLength r.length contents.size))
  | none => pure (Bytes.zeros r.length)

/-- The position behind the banks that begin below an address, found by halving. -/
def positionOf (base : UInt16) : Placing Nat := do
  return cut (fun c => decide (c.base < base)) (← get)

/-- Puts a bank in at a position, and those from there on behind it. -/
def insertAt (i : Nat) (b : BankView) : Placing Unit := do
  let row ← get
  if i ≤ row.length then set (row.take i ++ b :: row.drop i) else throw (.position i row.length)

/-- Hands back the bytes of the bank at a position, which stay where they are: they are given by the
position. -/
def handBack (i : Nat) : Placing Nat := do
  let row ← get
  if i < row.length then pure i else throw (.position i row.length)

/-- Puts in the bank that is asked for, if the contents that are given fit, and hands back its bytes. -/
def putBank (r : Registration) : Placing Nat := do
  let contents ← firstBytes r
  let i ← positionOf r.base
  insertAt i { base := r.base, contents, readOnly := r.readOnly }
  handBack i

/-- Registers a bank in the row, and hands back its bytes. -/
def registerInPlace (r : Registration) : Placing Nat := do
  refuseIf (r.length = 0) (.empty r.base)
  refuseIf (0x10000 < r.base.toNat + r.length) (.outOfRange r.base r.length)
  refuseOverlap r
  putBank r

section Placing

variable {α β : Type} {p : Placing α} {f : α → Placing β} {x : α} {fault : Fault}
  {row row' : List BankView} {reason : Prop} [Decidable reason] {i : Nat} {v : BankView}

theorem applyTo_bind_of_ok (h : p.applyTo row = (.ok x, row')) :
    Placing.applyTo (p >>= f) row = (f x).applyTo row' := by
  show ExceptT.bindCont f (p.applyTo row).1 (p.applyTo row).2 = _
  rw [h]
  rfl

theorem applyTo_bind_of_error (h : p.applyTo row = (.error fault, row')) :
    Placing.applyTo (p >>= f) row = (.error fault, row') := by
  show ExceptT.bindCont f (p.applyTo row).1 (p.applyTo row).2 = _
  rw [h]
  rfl

theorem applyTo_refuseIf_of_pos (h : reason) (e : BankError) :
    (refuseIf reason e).applyTo row = (.error (.refused e), row) := by
  rw [refuseIf, if_pos h]
  rfl

theorem applyTo_refuseIf_of_neg (h : ¬reason) (e : BankError) :
    (refuseIf reason e).applyTo row = (.ok (), row) := by
  rw [refuseIf, if_neg h]
  rfl

/-- In the row of an address space the same bank is found. -/
theorem find?_map_view (s : AddressSpace) (r : Registration) :
    ((s.banks.map Bank.view).find? fun c =>
      decide (r.base.toNat < c.base.toNat + c.contents.size) &&
        decide (c.base.toNat < r.base.toNat + r.length)) =
      (s.banks.find? (·.overlaps r.base r.length)).map Bank.view := List.find?_map

theorem applyTo_refuseOverlap_of_some (h : s.banks.find? (·.overlaps r.base r.length) = some b) :
    (refuseOverlap r).applyTo (s.banks.map Bank.view) =
      (.error (.refused (.overlap r.base r.length b.base)), s.banks.map Bank.view) := by
  have found := s.find?_map_view r
  rw [h] at found
  show Placing.applyTo (match (s.banks.map Bank.view).find? _ with
    | some other => throw (.refused (.overlap r.base r.length other.base))
    | none => pure ()) _ = _
  rw [found]
  rfl

theorem applyTo_refuseOverlap_of_none (h : s.banks.find? (·.overlaps r.base r.length) = none) :
    (refuseOverlap r).applyTo (s.banks.map Bank.view) = (.ok (), s.banks.map Bank.view) := by
  have found := s.find?_map_view r
  rw [h] at found
  show Placing.applyTo (match (s.banks.map Bank.view).find? _ with
    | some other => throw (.refused (.overlap r.base r.length other.base))
    | none => pure ()) _ = _
  rw [found]
  rfl

theorem applyTo_firstBytes (size : ∀ contents, r.initial = some contents → contents.size = r.length) :
    (firstBytes r).applyTo row = (.ok r.contents, row) := by
  rw [firstBytes, Registration.contents]
  cases given : r.initial with
  | none => rfl
  | some contents =>
    dsimp only
    rw [if_pos (size contents given)]
    rfl

theorem applyTo_firstBytes_of_wrong {contents : ByteArray} (given : r.initial = some contents)
    (wrong : contents.size ≠ r.length) : (firstBytes r).applyTo row =
      (.error (.refused (.contentsLength r.length contents.size)), row) := by
  rw [firstBytes, given]
  dsimp only
  rw [if_neg wrong]
  rfl

theorem applyTo_insertAt (h : i ≤ row.length) :
    (insertAt i v).applyTo row = (.ok (), row.take i ++ v :: row.drop i) := by
  show Placing.applyTo (if i ≤ row.length then _ else _) row = _
  rw [if_pos h]
  rfl

theorem applyTo_handBack (h : i < row.length) : (handBack i).applyTo row = (.ok i, row) := by
  show Placing.applyTo (if i < row.length then _ else _) row = _
  rw [if_pos h]
  rfl

/-- Halving finds the position that it finds in the row of an address space. -/
theorem applyTo_positionOf (s : AddressSpace) (base : UInt16) :
    (positionOf base).applyTo (s.banks.map Bank.view) =
      (.ok (cut (fun c => decide (c.base < base)) s.banks), s.banks.map Bank.view) := by
  show (Except.ok (cut _ (s.banks.map Bank.view)), _) = _
  rw [cut_map]
  rfl

/-- What is left of a registration of a bank that has its place in the address range. -/
theorem applyTo_registerInPlace_of_fits (nonempty : 0 < r.length)
    (fits : r.base.toNat + r.length ≤ 0x10000) (row : List BankView) :
    (registerInPlace r).applyTo row = Placing.applyTo (do refuseOverlap r; putBank r) row := by
  refine (applyTo_bind_of_ok (applyTo_refuseIf_of_neg (Nat.ne_of_gt nonempty) _)).trans ?_
  exact applyTo_bind_of_ok (applyTo_refuseIf_of_neg (Nat.not_lt.2 fits) _)

/-- What is left of it when nothing is in its way. -/
theorem applyTo_registerInPlace_of_apart (nonempty : 0 < r.length)
    (fits : r.base.toNat + r.length ≤ 0x10000) (apart : ∀ c ∈ s.banks, ¬r.Meets c) :
    (registerInPlace r).applyTo (s.banks.map Bank.view) =
      (putBank r).applyTo (s.banks.map Bank.view) := by
  have nothing := (find?_overlaps_eq_none_iff nonempty).2 apart
  rw [applyTo_registerInPlace_of_fits nonempty fits]
  exact applyTo_bind_of_ok (applyTo_refuseOverlap_of_none nothing)

/-- **A refusal comes before any change.** -/
theorem applyTo_registerInPlace_of_refused (h : s.Refused r e) :
    (registerInPlace r).applyTo (s.banks.map Bank.view) =
      (.error (.refused e), s.banks.map Bank.view) := by
  cases h with
  | empty empty => exact applyTo_bind_of_error (applyTo_refuseIf_of_pos empty _)
  | outOfRange nonempty beyond =>
    refine (applyTo_bind_of_ok (applyTo_refuseIf_of_neg (Nat.ne_of_gt nonempty) _)).trans ?_
    exact applyTo_bind_of_error (applyTo_refuseIf_of_pos beyond _)
  | overlap nonempty fits there meets lowest =>
    have found := (find?_overlaps_eq_some_iff nonempty).2 ⟨there, meets, lowest⟩
    rw [applyTo_registerInPlace_of_fits nonempty fits]
    exact applyTo_bind_of_error (applyTo_refuseOverlap_of_some found)
  | contentsLength nonempty fits apart given wrong =>
    rw [applyTo_registerInPlace_of_apart nonempty fits apart]
    exact applyTo_bind_of_error (applyTo_firstBytes_of_wrong given wrong)

/-- **What is legal is put in** where halving says. -/
theorem applyTo_registerInPlace_of_legal (h : s.Legal r) :
    (registerInPlace r).applyTo (s.banks.map Bank.view) =
      (.ok (s.positionFor r),
        (s.banks.map Bank.view).take (s.positionFor r) ++
          ⟨r.base, r.contents, r.readOnly⟩ :: (s.banks.map Bank.view).drop (s.positionFor r)) := by
  have position : s.positionFor r ≤ (s.banks.map Bank.view).length := by
    rw [List.length_map]
    exact s.positionFor_le_length r
  rw [applyTo_registerInPlace_of_apart h.nonempty h.fits h.apart]
  refine (applyTo_bind_of_ok (applyTo_firstBytes h.size)).trans ?_
  refine (applyTo_bind_of_ok (applyTo_positionOf s r.base)).trans ?_
  refine (applyTo_bind_of_ok (applyTo_insertAt position)).trans ?_
  apply applyTo_handBack
  rw [List.length_append, List.length_take, Nat.min_eq_left position, List.length_cons]
  exact Nat.lt_add_of_pos_right (Nat.succ_pos _)

end Placing

/-! ### What an accepted bank changes -/

/-- The bank of a registration stands at a position of the row, which is otherwise as it was, and the
bytes that are handed back are its own. -/
structure PutIn (s : AddressSpace) (r : Registration) (i : Nat) (b : Bank) (t : AddressSpace) :
    Prop where
  /-- The bank begins where it was asked for. -/
  base : b.base = r.base
  /-- It takes writes or not, as it was asked for. -/
  readOnly : b.readOnly = r.readOnly
  /-- It has the bytes that were given, or zeros. -/
  contents : b.contents = r.initial.getD (Bytes.zeros r.length)
  /-- The other banks are those that there were, in their order. -/
  row : t.banks = s.banks.take i ++ b :: s.banks.drop i
  /-- The bank stands at the position. -/
  position : t.banks[i]? = some b
  /-- Its addresses read as its bytes, and the others as before. -/
  read : ∀ a, t.read a =
    if Within r.base 0 r.length a then Bytes.get b.contents (a.toNat - r.base.toNat) else s.read a
  /-- What is written to the bytes that are handed back goes into this bank and no other. -/
  through : ∀ offset data, (t.overwrite r.base offset data).banks =
    s.banks.take i ++ b.overwrite offset data :: s.banks.drop i
  /-- It is read from there, also if the bank takes no writes. -/
  written : ∀ offset data, offset + data.size ≤ r.length → ∀ a,
    (t.overwrite r.base offset data).read a =
      if Within r.base offset data.size a then Bytes.get data (a.toNat - r.base.toNat - offset)
      else t.read a

/-- A bank that is put in stands at the position found by halving. -/
theorem row_insertBank {c : Bank} (base : c.base = r.base) (new : ∀ d ∈ s.banks, d.base ≠ r.base) :
    insertBank c s.banks =
      s.banks.take (s.positionFor r) ++ c :: s.banks.drop (s.positionFor r) := by
  rw [positionFor, ← base]
  rw [← base] at new
  exact s.insertBank_eq_at_cut c new

theorem read_of_insertBank (sound : r.Sound) (banks : t.banks = insertBank (r.bank sound) s.banks)
    (a : UInt16) : t.read a =
      if Within r.base 0 r.length a then Bytes.get r.contents (a.toNat - r.base.toNat)
      else s.read a := by
  rw [read_toMap, toMap_of_insertBank sound banks, read_toMap, MemoryMap.read]
  show ((if Within r.base 0 r.length a then _ else _ : Option Cell).map Cell.value).getD 0 = _
  by_cases within : Within r.base 0 r.length a
  · rw [if_pos within, if_pos within]
    rfl
  · rw [if_neg within, if_neg within]
    rfl

/-- Bytes put into a bank are read from its addresses. -/
theorem read_overwrite (found : t.bank? r.base = some b) {offset : Nat} {data : ByteArray}
    (fits : offset + data.size ≤ b.size) (a : UInt16) : (t.overwrite r.base offset data).read a =
      if Within r.base offset data.size a then Bytes.get data (a.toNat - r.base.toNat - offset)
      else t.read a := by
  rw [read_toMap, read_toMap, MemoryMap.read, MemoryMap.read, cell_overwrite found fits]
  by_cases within : Within r.base offset data.size a
  · obtain ⟨there, base⟩ := bank?_eq_some_iff.1 found
    have answers : b.contains a = true := by
      rw [Bank.contains_iff, Bank.stop, base]
      rw [Within] at within
      omega
    rw [if_pos within, if_pos within, cell_toMap there answers]
    rfl
  · rw [if_neg within, if_neg within]

/-- **What is accepted is put in.** -/
theorem exists_putIn (ok : s.register r.base r.length r.initial r.readOnly = .ok t) :
    ∃ b, s.PutIn r (s.positionFor r) b t := by
  obtain ⟨sound, free, banks⟩ := register_eq_ok_iff.1 ok
  have new : ∀ c ∈ s.banks, c.base ≠ r.base := fun c hc => base_ne_of_free sound free hc
  have found : t.bank? r.base = some (r.bank sound) := by
    rw [bank?_eq_some_iff, banks]
    exact ⟨mem_insertBank.2 (.inl rfl), rfl⟩
  have row := banks.trans (row_insertBank (c := r.bank sound) rfl new)
  have front : (s.banks.take (s.positionFor r)).length = s.positionFor r := by
    rw [List.length_take, Nat.min_eq_left (s.positionFor_le_length r)]
  refine ⟨r.bank sound, rfl, rfl, rfl, row, ?_, read_of_insertBank sound banks, ?_, ?_⟩
  · rw [row, List.getElem?_append_right (Nat.le_of_eq front), front, Nat.sub_self]
    rfl
  · intro offset data
    exact (banks_overwrite banks new offset data).trans (row_insertBank rfl new)
  · intro offset data fits
    refine read_overwrite found ?_
    show offset + data.size ≤ r.contents.size
    rw [sound.2.2]
    exact fits

/-! ### The main result -/

/-- **A bank is accepted exactly if it is legal.** A registration succeeds if nothing speaks against it,
and otherwise names the first reason there is. In the row of banks, which it changes in its place, it stops
nowhere else: a refusal leaves the row as it is, and what is accepted stands in the row at one position,
the other banks being as they were, and the bytes handed back are those at that position. -/
theorem accepts_legal (s : AddressSpace) (r : Registration) :
    ((∃ t, s.register r.base r.length r.initial r.readOnly = .ok t) ↔ s.Legal r) ∧
    (∀ e, s.register r.base r.length r.initial r.readOnly = .error e ↔ s.Refused r e) ∧
    (∀ e, s.register r.base r.length r.initial r.readOnly = .error e →
      (registerInPlace r).applyTo (s.banks.map Bank.view) =
        (.error (.refused e), s.banks.map Bank.view) ∧ s.change (.register r) = s) ∧
    ∀ t, s.register r.base r.length r.initial r.readOnly = .ok t →
      ∃ i b, (registerInPlace r).applyTo (s.banks.map Bank.view) = (.ok i, t.banks.map Bank.view) ∧
        s.PutIn r i b t := by
  refine ⟨exists_register_iff, fun _ => register_eq_error_iff, ?_, ?_⟩
  · intro e refused
    refine ⟨applyTo_registerInPlace_of_refused (register_eq_error_iff.1 refused), ?_⟩
    rw [change, refused]
  · intro t ok
    obtain ⟨b, put⟩ := exists_putIn ok
    refine ⟨s.positionFor r, b, ?_, put⟩
    rw [applyTo_registerInPlace_of_legal (exists_register_iff.1 ⟨t, ok⟩), put.row, List.map_append,
      List.map_cons, List.map_take, List.map_drop, Bank.view, put.base, put.readOnly, put.contents]
    rfl

/-! A case of it: of two banks in the way the lower one is named, also if it was registered last. -/

example : (empty.after [.register (zeros 0x20 4), .register (zeros 0x10 4)]).register 0x12 0x20
    (some (Bytes.zeros 5)) false = .error (.overlap 0x12 0x20 0x10) := rfl

end AddressSpace

end Cabinet
