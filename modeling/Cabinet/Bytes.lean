/-!
# Byte strings

Operations on byte strings that keep their size, and what they do to each byte. A byte string is
compared with others through its size and its bytes (`ByteArray.ext_getElem`).
-/

namespace Cabinet.Bytes

/-- A string of `n` zero bytes. -/
def zeros (n : Nat) : ByteArray := ⟨Array.replicate n 0⟩

@[simp] theorem size_zeros (n : Nat) : (zeros n).size = n := by
  simp [zeros, ByteArray.size]

@[simp] theorem getElem_zeros (n i : Nat) (h : i < (zeros n).size) : (zeros n)[i] = 0 := by
  simp [zeros, ByteArray.getElem_eq_getElem_data]

/-- The byte at a position; zero behind the end. -/
@[inline] def get (b : ByteArray) (i : Nat) : UInt8 := if h : i < b.size then b[i] else 0

theorem get_of_lt {b : ByteArray} {i : Nat} (h : i < b.size) : get b i = b[i] := dif_pos h

theorem get_of_le {b : ByteArray} {i : Nat} (h : b.size ≤ i) : get b i = 0 :=
  dif_neg (Nat.not_lt.2 h)

theorem get_zeros (n i : Nat) : get (zeros n) i = 0 := by
  unfold get
  split
  · exact getElem_zeros ..
  · rfl

theorem get_append (a b : ByteArray) (i : Nat) :
    get (a ++ b) i = if i < a.size then get a i else get b (i - a.size) := by
  have hs : (a ++ b).size = a.size + b.size := ByteArray.size_append
  by_cases ha : i < a.size
  · rw [if_pos ha, get_of_lt ha, get_of_lt (by omega), ByteArray.getElem_append_left ha]
  · rw [if_neg ha]
    by_cases hb : i < (a ++ b).size
    · rw [get_of_lt hb, ByteArray.getElem_append_right (Nat.le_of_not_lt ha), get_of_lt]
    · rw [get_of_le (Nat.le_of_not_lt hb), get_of_le (by omega)]

/-- The string of `n` bytes that `f` gives. -/
def ofFn (n : Nat) (f : Fin n → UInt8) : ByteArray := ⟨Array.ofFn f⟩

@[simp] theorem size_ofFn (n : Nat) (f : Fin n → UInt8) : (ofFn n f).size = n := by
  simp [ofFn, ByteArray.size]

@[simp] theorem getElem_ofFn (n : Nat) (f : Fin n → UInt8) (i : Nat) (h : i < (ofFn n f).size) :
    (ofFn n f)[i] = f ⟨i, by simpa using h⟩ := by
  simp [ofFn, ByteArray.getElem_eq_getElem_data]

/-- The string of the listed bytes. -/
def ofList (bs : List UInt8) : ByteArray := ⟨bs.toArray⟩

@[simp] theorem size_ofList (bs : List UInt8) : (ofList bs).size = bs.length := by
  simp [ofList, ByteArray.size]

theorem get_ofList (bs : List UInt8) (i : Nat) : get (ofList bs) i = bs.getD i 0 := by
  by_cases h : i < bs.length
  · rw [get_of_lt (by simpa using h)]
    simp [ofList, ByteArray.getElem_eq_getElem_data, h]
  · rw [get_of_le (by simpa using h), List.getD_eq_getElem?_getD,
      List.getElem?_eq_none (Nat.le_of_not_lt h), Option.getD_none]

theorem getD_toList (b : ByteArray) (i : Nat) : b.data.toList.getD i 0 = get b i := by
  by_cases hi : i < b.size
  · rw [get_of_lt hi, List.getD_eq_getElem?_getD, Array.getElem?_toList, Array.getElem?_eq_getElem hi,
      Option.getD_some, ByteArray.getElem_eq_getElem_data]
  · rw [get_of_le (Nat.le_of_not_lt hi), List.getD_eq_getElem?_getD, Array.getElem?_toList,
      Array.getElem?_eq_none (Nat.le_of_not_lt hi), Option.getD_none]

/-- The listed bytes stand in a string from position `i` on. -/
def Has (b : ByteArray) : Nat → List UInt8 → Prop
  | _, [] => True
  | i, x :: xs => get b i = x ∧ Has b (i + 1) xs

theorem has_append {b : ByteArray} {i : Nat} {xs ys : List UInt8} :
    Has b i (xs ++ ys) ↔ Has b i xs ∧ Has b (i + xs.length) ys := by
  induction xs generalizing i with
  | nil => simp [Has]
  | cons x xs ih => simp [Has, ih, and_assoc, Nat.add_assoc, Nat.add_comm 1]

theorem has_iff_getElem {b : ByteArray} {i : Nat} {xs : List UInt8} :
    Has b i xs ↔ ∀ k, (h : k < xs.length) → get b (i + k) = xs[k] := by
  induction xs generalizing i with
  | nil => simp [Has]
  | cons x xs ih =>
    rw [Has, ih]
    constructor
    · rintro ⟨h0, hs⟩ k hk
      cases k with
      | zero => exact h0
      | succ k =>
        rw [List.getElem_cons_succ, ← hs k (Nat.lt_of_succ_lt_succ hk), Nat.add_right_comm,
          Nat.add_assoc]
    · intro h
      refine ⟨h 0 (Nat.succ_pos _), fun k hk => ?_⟩
      rw [Nat.add_right_comm, Nat.add_assoc, h (k + 1) (Nat.succ_lt_succ hk), List.getElem_cons_succ]

theorem has_ofList_append (bs : List UInt8) (c : ByteArray) : Has (ofList bs ++ c) 0 bs := by
  refine has_iff_getElem.2 fun k hk => ?_
  rw [Nat.zero_add, get_append, if_pos (by simpa using hk), get_ofList, List.getD_eq_getElem?_getD,
    List.getElem?_eq_getElem hk, Option.getD_some]

@[simp] theorem size_set (b : ByteArray) (i : Nat) (v : UInt8) (h : i < b.size) :
    (b.set i v h).size = b.size := by
  cases b
  exact Array.size_set _

/-- Setting a byte changes that byte only. -/
theorem get_set (b : ByteArray) (i j : Nat) (v : UInt8) (hi : i < b.size) :
    get (b.set i v hi) j = if i = j then v else get b j := by
  by_cases hj : j < b.size
  · have hj' : j < (b.set i v hi).size := by simpa using hj
    simp only [get, hj, hj', dite_true, ByteArray.getElem_eq_getElem_data]
    exact Array.getElem_set ..
  · have : i ≠ j := by omega
    simp [get, hj, this]

/-- The bytes from `offset` on replaced by `data`. If they do not fit nothing is changed. -/
def overwrite (b : ByteArray) (offset : Nat) (data : ByteArray) : ByteArray :=
  if offset + data.size ≤ b.size then
    b.extract 0 offset ++ data ++ b.extract (offset + data.size) b.size
  else b

@[simp] theorem size_overwrite (b : ByteArray) (offset : Nat) (data : ByteArray) :
    (overwrite b offset data).size = b.size := by
  unfold overwrite
  split
  · simp only [ByteArray.size_append, ByteArray.size_extract]
    omega
  · rfl

theorem get_extract (b : ByteArray) (i j k : Nat) :
    get (b.extract i j) k = if i + k < j then get b (i + k) else 0 := by
  have hs : (b.extract i j).size = min j b.size - i := ByteArray.size_extract
  by_cases hk : k < (b.extract i j).size
  · rw [get_of_lt hk, ByteArray.getElem_extract, if_pos (by omega), get_of_lt]
  · rw [get_of_le (Nat.le_of_not_lt hk)]
    split
    · rw [get_of_le (by omega)]
    · rfl

/-- Where bytes are replaced the new ones stand, elsewhere the old ones. -/
theorem get_overwrite (b : ByteArray) (offset : Nat) (data : ByteArray)
    (h : offset + data.size ≤ b.size) (i : Nat) :
    get (overwrite b offset data) i =
      if offset ≤ i ∧ i < offset + data.size then get data (i - offset) else get b i := by
  have front : (b.extract 0 offset).size = offset := by
    rw [ByteArray.size_extract]
    omega
  rw [overwrite, if_pos h, get_append, get_append, ByteArray.size_append, front, get_extract,
    get_extract]
  by_cases before : i < offset
  · rw [if_pos (by omega), if_pos before, if_pos (by omega), Nat.zero_add, if_neg (by omega)]
  by_cases within : i < offset + data.size
  · rw [if_pos within, if_neg before, if_pos ⟨by omega, within⟩]
  · have outside : ¬(offset ≤ i ∧ i < offset + data.size) := fun h => within h.2
    rw [if_neg within, if_neg outside,
      show offset + data.size + (i - (offset + data.size)) = i by omega]
    split
    · rfl
    · exact (get_of_le (by omega)).symm

/-- Replacing all bytes gives the new bytes. -/
theorem overwrite_zero (b data : ByteArray) (h : data.size = b.size) : overwrite b 0 data = data := by
  simp [overwrite, h]

/-- The bytes, each changed by what `f` does at its place. -/
def mapIdx (b : ByteArray) (f : Nat → UInt8 → UInt8) : ByteArray :=
  ofFn b.size fun i => f i (get b i)

theorem size_mapIdx (b : ByteArray) (f : Nat → UInt8 → UInt8) : (mapIdx b f).size = b.size :=
  size_ofFn ..

theorem get_mapIdx {b : ByteArray} {f : Nat → UInt8 → UInt8} {i : Nat} (h : i < b.size) :
    get (mapIdx b f) i = f i (get b i) := by
  rw [get_of_lt (by rwa [size_mapIdx])]
  simp [mapIdx]

/-- Byte strings of one size are compared byte by byte. -/
theorem eq_of_get {b c : ByteArray} (size : b.size = c.size)
    (h : ∀ i, i < b.size → get b i = get c i) : b = c := by
  refine ByteArray.ext_getElem size fun i hb hc => ?_
  rw [← get_of_lt hb, ← get_of_lt hc, h i hb]

/-- Bytes with the same bits are the same. -/
theorem byte_eq_of_testBit {a b : UInt8} (h : ∀ j < 8, a.toNat.testBit j = b.toNat.testBit j) :
    a = b := by
  rw [← UInt8.toNat_inj]
  refine Nat.eq_of_testBit_eq fun j => ?_
  by_cases hj : j < 8
  · exact h j hj
  · have le : 2 ^ 8 ≤ 2 ^ j := Nat.pow_le_pow_right (by decide) (Nat.le_of_not_lt hj)
    rw [Nat.testBit_lt_two_pow (Nat.lt_of_lt_of_le (UInt8.toNat_lt _) le),
      Nat.testBit_lt_two_pow (Nat.lt_of_lt_of_le (UInt8.toNat_lt _) le)]

theorem extract_of_size_le {b : ByteArray} {n : Nat} (h : b.size ≤ n) : b.extract 0 n = b := by
  have size : (b.extract 0 n).size = b.size := by
    rw [ByteArray.size_extract]
    omega
  refine eq_of_get size fun i hi => ?_
  rw [get_extract, Nat.zero_add, if_pos (by omega)]

end Cabinet.Bytes
