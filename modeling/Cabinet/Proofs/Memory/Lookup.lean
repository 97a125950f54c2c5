import Cabinet.Memory.AddressSpace
import Mathlib.Data.List.Pairwise
/-!
# Finding a bank

No two banks of an address space answer the same address, so that at most one bank is to be found
for an address, and at most one with a base. And the row is ordered: the banks that begin at or below
an address come first, their number can be found by halving, and the last of them is the only one that
can answer the address (`AddressSpace.search_eq_bankOf?`). In the same way the place of a new bank can
be found by halving (`AddressSpace.insertBank_eq_at_cut`).
-/

namespace Cabinet

/-! ### Halving a row -/

/-- The first position from `lo` to `hi` at which `p` does not hold, found by halving. It is the right
one if `p` holds up to some position and not from there on. -/
def firstFailing (p : Nat → Bool) (lo hi : Nat) : Nat :=
  if lo < hi then
    if p (lo + (hi - lo) / 2) then firstFailing p (lo + (hi - lo) / 2 + 1) hi
    else firstFailing p lo (lo + (hi - lo) / 2)
  else lo
termination_by hi - lo

theorem firstFailing_eq {p : Nat → Bool} {lo hi n : Nat} (above : lo ≤ n) (below : n ≤ hi)
    (hp : ∀ i, lo ≤ i → i < hi → (p i = true ↔ i < n)) : firstFailing p lo hi = n := by
  fun_induction firstFailing p lo hi with
  | case1 lo hi open' holds ih =>
    have := (hp _ (by omega) (by omega)).1 holds
    exact ih (by omega) below fun i hi hi' => hp i (by omega) hi'
  | case2 lo hi open' fails ih =>
    have : ¬lo + (hi - lo) / 2 < n := fun h => fails ((hp _ (by omega) (by omega)).2 h)
    exact ih above (by omega) fun i hi hi' => hp i hi (by omega)
  | case3 lo hi closed => omega

section Cut

variable {α : Type} {p : α → Bool}

/-- The number of leading items of which `p` holds, found by halving. -/
def cut (p : α → Bool) (l : List α) : Nat := firstFailing (fun i => l[i]?.any p) 0 l.length

/-- Where `p` holds of a first part and of nothing behind it, the cut is between the two. -/
theorem cut_append {xs ys : List α} (hx : ∀ x ∈ xs, p x = true) (hy : ∀ y ∈ ys, p y = false) :
    cut p (xs ++ ys) = xs.length := by
  refine firstFailing_eq (Nat.zero_le _) (by simp) fun i _ hi => ?_
  by_cases h : i < xs.length
  · rw [List.getElem?_append_left h, List.getElem?_eq_getElem h]
    exact iff_of_true (hx _ (List.getElem_mem h)) h
  · have hi : i - xs.length < ys.length := by
      rw [List.length_append] at hi
      omega
    rw [List.getElem?_append_right (Nat.le_of_not_lt h), List.getElem?_eq_getElem hi,
      Option.any_some, hy _ (List.getElem_mem hi)]
    exact iff_of_false Bool.false_ne_true h

/-- A row in which `p` never begins to hold falls into the part where it does and the rest. -/
theorem exists_append_of_pairwise {r : α → α → Prop} {l : List α} (hl : l.Pairwise r)
    (hp : ∀ x y, r x y → p y = true → p x = true) :
    ∃ xs ys, l = xs ++ ys ∧ (∀ x ∈ xs, p x = true) ∧ ∀ y ∈ ys, p y = false := by
  induction l with
  | nil => exact ⟨[], [], rfl, by simp, by simp⟩
  | cons x l ih =>
    obtain ⟨first, rest⟩ := List.pairwise_cons.1 hl
    by_cases hx : p x = true
    · obtain ⟨xs, ys, rfl, hxs, hys⟩ := ih rest
      refine ⟨x :: xs, ys, rfl, ?_, hys⟩
      exact List.forall_mem_cons.2 ⟨hx, hxs⟩
    · refine ⟨[], x :: l, rfl, by simp, fun y hy => Bool.eq_false_iff.2 fun h => hx ?_⟩
      rcases List.mem_cons.1 hy with rfl | hy
      · exact h
      · exact hp x y (first y hy) h

/-- Where at most one item is looked for, finding one says that it is there. -/
theorem find?_eq_some_iff_of_unique {l : List α} {x : α}
    (unique : ∀ x ∈ l, ∀ y ∈ l, p x = true → p y = true → x = y) :
    l.find? p = some x ↔ x ∈ l ∧ p x = true := by
  constructor
  · intro h
    exact ⟨List.mem_of_find?_eq_some h, List.find?_some h⟩
  · rintro ⟨hx, px⟩
    cases h : l.find? p with
    | none => exact absurd px (List.find?_eq_none.1 h x hx)
    | some y => rw [unique y (List.mem_of_find?_eq_some h) x hx (List.find?_some h) px]

end Cut

/-! ### One bank for an address -/

namespace Bank

theorem base_lt_stop (b : Bank) : b.base.toNat < b.stop := Nat.lt_add_of_pos_right b.nonempty

/-- A bank answers its own base. -/
theorem contains_base (b : Bank) : b.contains b.base = true :=
  (b.contains_iff b.base).2 ⟨Nat.le_refl _, b.base_lt_stop⟩

theorem contains_congr {b c : Bank} (base : b.base = c.base) (stop : b.stop = c.stop) (a : UInt16) :
    b.contains a = c.contains a := by
  rw [Bool.eq_iff_iff, contains_iff, contains_iff, base, stop]

/-- One of two banks ends before the other begins. -/
def Apart (b c : Bank) : Prop := b.stop ≤ c.base.toNat ∨ c.stop ≤ b.base.toNat

instance : Std.Symm Apart := ⟨fun _ _ => Or.symm⟩

/-- Banks that are apart answer no address both. -/
theorem Apart.not_contains {b c : Bank} (h : b.Apart c) {a : UInt16} (ba : b.contains a = true) :
    ¬c.contains a = true := by
  rw [contains_iff] at ba ⊢
  rcases h with h | h
  · omega
  · omega

/-- Rows with ascending bases are equal if they have the same banks. -/
theorem eq_of_mem_iff {bs cs : List Bank} (hb : bs.Pairwise (·.base < ·.base))
    (hc : cs.Pairwise (·.base < ·.base)) (same : ∀ b, b ∈ bs ↔ b ∈ cs) : bs = cs := by
  have distinct {b c : Bank} (h : b.base < c.base) : b ≠ c := fun same =>
    UInt16.lt_irrefl _ (same ▸ h)
  have perm : bs.Perm cs :=
    (List.perm_ext_iff_of_nodup (hb.imp distinct) (hc.imp distinct)).2 same
  refine perm.eq_of_pairwise (fun b c _ _ bc cb => ?_) hb hc
  exact absurd (UInt16.lt_trans bc cb) (UInt16.lt_irrefl _)

end Bank

namespace AddressSpace

variable {s : AddressSpace} {a base : UInt16} {b c : Bank}

/-- The bases ascend. -/
theorem pairwise_base (s : AddressSpace) : s.banks.Pairwise (·.base < ·.base) := by
  refine s.ordered.imp fun {b c} h => UInt16.lt_iff_toNat_lt.2 ?_
  exact Nat.lt_of_lt_of_le b.base_lt_stop h

/-- Of two banks one ends before the other begins. -/
theorem eq_or_apart (hb : b ∈ s.banks) (hc : c ∈ s.banks) : b = c ∨ b.Apart c := by
  have apart : s.banks.Pairwise Bank.Apart := s.ordered.imp Or.inl
  by_cases h : b = c
  · exact .inl h
  · exact .inr (apart.forall hb hc h)

/-- No two banks answer one address. -/
theorem eq_of_contains (hb : b ∈ s.banks) (hc : c ∈ s.banks) (ba : b.contains a = true)
    (ca : c.contains a = true) : b = c := by
  rcases eq_or_apart hb hc with h | h
  · exact h
  · exact absurd ca (h.not_contains ba)

/-- No two banks have one base. -/
theorem eq_of_base (hb : b ∈ s.banks) (hc : c ∈ s.banks) (h : b.base = c.base) : b = c :=
  eq_of_contains hb hc b.contains_base (by rw [h, c.contains_base])

/-- Looking for the bank of an address finds the one that answers it. -/
theorem bankOf?_eq_some_iff : s.bankOf? a = some b ↔ b ∈ s.banks ∧ b.contains a = true :=
  find?_eq_some_iff_of_unique fun _ hb _ hc => eq_of_contains hb hc

/-- Looking for the bank with a base finds the one that begins there. -/
theorem bank?_eq_some_iff : s.bank? base = some b ↔ b ∈ s.banks ∧ b.base = base := by
  refine (find?_eq_some_iff_of_unique fun _ hb _ hc hb' hc' => ?_).trans
    (and_congr_right' beq_iff_eq)
  exact eq_of_base hb hc ((beq_iff_eq.1 hb').trans (beq_iff_eq.1 hc').symm)

theorem isMapped_eq (s : AddressSpace) (a : UInt16) : s.isMapped a = (s.bankOf? a).isSome := by
  rw [Bool.eq_iff_iff, isMapped, List.any_eq_true]
  exact List.find?_isSome.symm

/-! ### The place of a bank in the row -/

/-- The bank of an address by halving: the last one that begins at or below the address, if it
answers the address. -/
def search (s : AddressSpace) (a : UInt16) : Option Bank :=
  match cut (fun b => decide (b.base ≤ a)) s.banks with
  | 0 => none
  | i + 1 => s.banks[i]?.filter (·.contains a)

/-- A bank that begins above an address does not answer it. -/
theorem not_contains_of_lt (h : a < b.base) : ¬b.contains a = true := by
  rw [Bank.contains_iff]
  rw [UInt16.lt_iff_toNat_lt] at h
  omega

/-- **The last bank at or below an address is the only one that can answer it**: those in front of it
end before it begins. -/
theorem bankOf?_of_row {xs ys : List Bank} (row : s.banks = xs ++ b :: ys) (low : b.base ≤ a)
    (high : ∀ c ∈ ys, a < c.base) : s.bankOf? a = (some b).filter (·.contains a) := by
  by_cases answers : b.contains a = true
  · rw [Option.filter_some, if_pos answers]
    refine bankOf?_eq_some_iff.2 ⟨?_, answers⟩
    rw [row]
    exact List.mem_append_right _ List.mem_cons_self
  · rw [Option.filter_some, if_neg answers]
    refine List.find?_eq_none.2 fun c hc => ?_
    rw [row] at hc
    rcases List.mem_append.1 hc with front | behind
    · have ordered := s.ordered
      rw [row, List.pairwise_append] at ordered
      have ends := ordered.2.2 c front b List.mem_cons_self
      rw [Bank.contains_iff]
      rw [UInt16.le_iff_toNat_le] at low
      omega
    · rcases List.mem_cons.1 behind with rfl | behind
      · exact answers
      · exact not_contains_of_lt (high c behind)

/-- **Halving finds the bank of every address.** -/
theorem search_eq_bankOf? (s : AddressSpace) (a : UInt16) : s.search a = s.bankOf? a := by
  obtain ⟨xs, ys, row, low, high⟩ := exists_append_of_pairwise s.pairwise_base
    (p := fun b => decide (b.base ≤ a)) fun b c bc ca =>
      decide_eq_true (UInt16.le_of_lt (UInt16.lt_of_lt_of_le bc (of_decide_eq_true ca)))
  have above : ∀ c ∈ ys, a < c.base := fun c hc =>
    UInt16.not_le.1 (of_decide_eq_false (high c hc))
  unfold search
  rw [row, cut_append low high]
  rcases List.eq_nil_or_concat xs with rfl | ⟨zs, b, rfl⟩
  · refine (List.find?_eq_none.2 fun c hc => ?_).symm
    rw [row] at hc
    exact not_contains_of_lt (above c hc)
  · rw [List.concat_eq_append] at low row ⊢
    rw [List.append_assoc, List.singleton_append] at row
    have below : b.base ≤ a := of_decide_eq_true (low b (by simp))
    rw [bankOf?_of_row row below above, List.length_append, List.length_singleton]
    show Option.filter _ ((zs ++ [b] ++ ys)[zs.length]?) = _
    rw [List.append_assoc, List.getElem?_append_right (Nat.le_refl _), Nat.sub_self,
      List.singleton_append, List.getElem?_cons_zero]

/-- **A bank is put in where halving says**: behind the banks that begin below it. -/
theorem insertBank_eq_at_cut (s : AddressSpace) (b : Bank) (new : ∀ c ∈ s.banks, c.base ≠ b.base) :
    insertBank b s.banks =
      s.banks.take (cut (fun c => decide (c.base < b.base)) s.banks) ++
        b :: s.banks.drop (cut (fun c => decide (c.base < b.base)) s.banks) := by
  obtain ⟨xs, ys, row, low, high⟩ := exists_append_of_pairwise s.pairwise_base
    (p := fun c => decide (c.base < b.base)) fun c d cd db =>
      decide_eq_true (UInt16.lt_trans cd (of_decide_eq_true db))
  rw [row] at new ⊢
  rw [cut_append low high, List.take_left, List.drop_left]
  clear row
  induction xs with
  | nil =>
    cases ys with
    | nil => rfl
    | cons c cs =>
      have above : ¬c.base < b.base := of_decide_eq_false (high c List.mem_cons_self)
      have apart : c.base ≠ b.base := new c List.mem_cons_self
      rw [List.nil_append, insertBank, if_pos]
      · rfl
      · rw [UInt16.lt_iff_toNat_lt] at above ⊢
        rw [Ne, ← UInt16.toNat_inj] at apart
        omega
  | cons c xs ih =>
    have below : c.base < b.base := of_decide_eq_true (low c List.mem_cons_self)
    rw [List.cons_append, insertBank, if_neg (UInt16.not_lt.2 (UInt16.le_of_lt below)),
      ih (fun d hd => new d (List.mem_cons_of_mem _ hd)) fun d hd =>
        low d (List.mem_cons_of_mem _ hd)]
    rfl

end AddressSpace

end Cabinet
