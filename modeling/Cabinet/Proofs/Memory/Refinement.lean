import Cabinet.Proofs.Memory.Map
/-!
# The address space answers as its map does

The map of an address space (`AddressSpace.toMap`) changes with the address space: a call does to the
one what it does to the other (`toMap_change`), and so does any number of calls (`toMap_after`).
Because every answer can be taken from the map (`answersAs_toMap`), an address space that came about
by calls cannot be told from the map that came about by the same calls.
-/

namespace Cabinet

/-! ### One bank -/

namespace Bank

/-- What is told of the bank. -/
def view (b : Bank) : BankView := ⟨b.base, b.contents, b.readOnly⟩

/-- What stands at an address of the bank. -/
def cell (b : Bank) (a : UInt16) : Cell := ⟨b.read a, b.readOnly⟩

variable {b : Bank} {a x : UInt16}

theorem readOnly_write (b : Bank) (a : UInt16) (v : UInt8) :
    (b.write a v).readOnly = b.readOnly := by
  unfold write
  split <;> rfl

theorem write_eq_self {v : UInt8} (h : ¬(b.contains a = true ∧ b.readOnly = false)) :
    b.write a v = b := dif_neg h

theorem contents_write {v : UInt8} (h : b.contains a = true ∧ b.readOnly = false) :
    (b.write a v).contents = b.contents.set (b.offset a) v (offset_lt_size h.1) := by
  rw [write, dif_pos h]

/-- Two addresses of a bank have one distance only if they are one. -/
theorem eq_of_offset (ba : b.contains a = true) (bx : b.contains x = true)
    (h : b.offset a = b.offset x) : x = a := by
  rw [contains_iff] at ba bx
  rw [offset, offset] at h
  rw [← UInt16.toNat_inj]
  omega

/-- A write to a bank changes one byte, if the bank takes writes. -/
theorem read_write (v : UInt8) (bx : b.contains x = true) :
    (b.write a v).read x = if x = a ∧ b.readOnly = false then v else b.read x := by
  by_cases h : b.contains a = true ∧ b.readOnly = false
  · have bx' : (b.write a v).contains x = true := by
      rw [contains_congr (b.base_write a v) (b.stop_write a v), bx]
    rw [read_of_contains bx', read_of_contains bx, contents_write h, Bytes.get_set,
      show (b.write a v).offset x = b.offset x by rw [offset, offset, base_write]]
    by_cases hx : x = a
    · subst hx
      rw [if_pos rfl, if_pos ⟨rfl, h.2⟩]
    · rw [if_neg fun same => hx (eq_of_offset h.1 bx same), if_neg fun both => hx both.1]
  · rw [write_eq_self h, if_neg]
    rintro ⟨rfl, writable⟩
    exact h ⟨bx, writable⟩

theorem overwrite_eq_self {offset : Nat} {data : ByteArray}
    (h : ¬offset + data.size ≤ b.size) : b.overwrite offset data = b := by
  have same : Bytes.overwrite b.contents offset data = b.contents := if_neg h
  cases b
  unfold overwrite
  congr

/-- What is put into a bank stands there, and the rest of the bank as before. -/
theorem read_overwrite {offset : Nat} {data : ByteArray} (fits : offset + data.size ≤ b.size)
    (ba : b.contains a = true) : (b.overwrite offset data).read a =
      if Within b.base offset data.size a then Bytes.get data (a.toNat - b.base.toNat - offset)
      else b.read a := by
  have ba' : (b.overwrite offset data).contains a = true := by
    rw [contains_congr (b.base_overwrite offset data) (b.stop_overwrite offset data), ba]
  rw [read_of_contains ba', read_of_contains ba]
  show Bytes.get (Bytes.overwrite b.contents offset data) (a.toNat - b.base.toNat) = _
  rw [Bytes.get_overwrite _ _ _ fits]
  refine if_congr ?_ rfl rfl
  have := ((b.contains_iff a).1 ba).1
  rw [Within]
  omega

end Bank

namespace AddressSpace

variable {s : AddressSpace} {a base : UInt16} {b : Bank}

/-- What a caller sees of the address space. -/
def toMap (s : AddressSpace) : MemoryMap where
  cell a := (s.bankOf? a).map (·.cell a)
  extent base := (s.bank? base).map Bank.size

theorem cell_toMap_eq_map (s : AddressSpace) (a : UInt16) :
    s.toMap.cell a = (s.bankOf? a).map (·.cell a) := rfl

theorem cell_toMap (hb : b ∈ s.banks) (ba : b.contains a = true) :
    s.toMap.cell a = some (b.cell a) := by
  rw [cell_toMap_eq_map, bankOf?_eq_some_iff.2 ⟨hb, ba⟩, Option.map_some]

theorem cell_toMap_eq_none (h : ∀ b ∈ s.banks, ¬b.contains a = true) : s.toMap.cell a = none := by
  have absent : s.bankOf? a = none := List.find?_eq_none.2 h
  rw [cell_toMap_eq_map, absent, Option.map_none]

theorem extent_toMap (h : s.bank? base = some b) : s.toMap.extent base = some b.size :=
  congrArg (Option.map Bank.size) h

/-! ### Banks changed in their places -/

section MapBanks

variable (f : Bank → Bank) (base_eq : ∀ b, (f b).base = b.base) (stop_eq : ∀ b, (f b).stop = b.stop)

theorem bankOf?_mapBanks (a : UInt16) :
    (s.mapBanks f base_eq stop_eq).bankOf? a = (s.bankOf? a).map f := by
  show (s.banks.map f).find? _ = (s.banks.find? _).map f
  rw [List.find?_map]
  congr 2
  funext b
  exact Bank.contains_congr (base_eq b) (stop_eq b) a

theorem bank?_mapBanks (base : UInt16) :
    (s.mapBanks f base_eq stop_eq).bank? base = (s.bank? base).map f := by
  show (s.banks.map f).find? _ = (s.banks.find? _).map f
  rw [List.find?_map]
  congr 2
  funext b
  exact congrArg (· == base) (base_eq b)

/-- Banks changed in their places stay as long as they are. -/
theorem extent_mapBanks : (s.mapBanks f base_eq stop_eq).toMap.extent = s.toMap.extent := by
  funext base
  show ((s.mapBanks f base_eq stop_eq).bank? base).map Bank.size = (s.bank? base).map Bank.size
  rw [bank?_mapBanks, Option.map_map]
  congr 1
  funext b
  have stop := stop_eq b
  rw [Bank.stop, Bank.stop, base_eq] at stop
  exact Nat.add_left_cancel stop

/-- Banks changed in their places change what stands there bank by bank. -/
theorem cell_mapBanks (a : UInt16) : (s.mapBanks f base_eq stop_eq).toMap.cell a =
    (s.bankOf? a).map fun b => (f b).cell a := by
  show ((s.mapBanks f base_eq stop_eq).bankOf? a).map _ = _
  rw [bankOf?_mapBanks, Option.map_map]
  rfl

end MapBanks

/-! ### What a call does to the map -/

theorem toMap_write (s : AddressSpace) (a : UInt16) (v : UInt8) :
    (s.write a v).toMap = s.toMap.write a v := by
  refine MemoryMap.ext (funext fun x => ?_) ?_
  · rw [write, cell_mapBanks, MemoryMap.cell_write, cell_toMap_eq_map, cell_toMap_eq_map]
    by_cases hx : x = a
    · subst hx
      rw [if_pos rfl, Option.map_map]
      refine Option.map_congr fun b hb => ?_
      obtain ⟨-, bx⟩ := bankOf?_eq_some_iff.1 hb
      rw [Bank.cell, Bank.readOnly_write, Bank.read_write v bx]
      show _ = if b.readOnly = true then (⟨b.read x, b.readOnly⟩ : Cell) else ⟨v, b.readOnly⟩
      cases b.readOnly with
      | true => rw [if_neg fun both => Bool.noConfusion both.2, if_pos rfl]
      | false => rw [if_pos ⟨rfl, rfl⟩, if_neg Bool.false_ne_true]
    · rw [if_neg hx]
      refine Option.map_congr fun b hb => ?_
      obtain ⟨-, bx⟩ := bankOf?_eq_some_iff.1 hb
      rw [Bank.cell, Bank.readOnly_write, Bank.read_write v bx, if_neg fun both => hx both.1]
      rfl
  · rw [write, extent_mapBanks, MemoryMap.extent_write]

/-- Where no bank begins, or the bytes do not fit, nothing is changed. -/
theorem overwrite_eq_self {offset : Nat} {data : ByteArray}
    (h : ∀ c, s.bank? base = some c → ¬offset + data.size ≤ c.size) :
    s.overwrite base offset data = s := by
  refine eq_of_banks ((List.map_congr_left fun b hb => ?_).trans (List.map_id s.banks))
  by_cases begins : b.base = base
  · rw [if_pos (beq_iff_eq.2 begins)]
    exact Bank.overwrite_eq_self (h b (bank?_eq_some_iff.2 ⟨hb, begins⟩))
  · rw [if_neg (by rw [beq_iff_eq]; exact begins)]
    rfl

/-- Bytes that fit stand in the bank that begins at the address, and elsewhere what stood there. -/
theorem cell_overwrite {c : Bank} {offset : Nat} {data : ByteArray} (hc : s.bank? base = some c)
    (fits : offset + data.size ≤ c.size) (x : UInt16) :
    (s.overwrite base offset data).toMap.cell x =
      if Within base offset data.size x then
        (s.toMap.cell x).map fun cell =>
          { cell with value := Bytes.get data (x.toNat - base.toNat - offset) }
      else s.toMap.cell x := by
  obtain ⟨there, rfl⟩ := bank?_eq_some_iff.1 hc
  rw [overwrite, cell_mapBanks, cell_toMap_eq_map]
  cases hb : s.bankOf? x with
  | none => rw [Option.map_none, Option.map_none, Option.map_none, ite_self]
  | some b =>
    obtain ⟨hb, bx⟩ := bankOf?_eq_some_iff.1 hb
    rw [Option.map_some, Option.map_some, Option.map_some]
    by_cases same : b = c
    · subst same
      rw [if_pos (beq_self_eq_true _), Bank.cell, Bank.read_overwrite fits bx]
      split <;> rfl
    · have elsewhere : ¬(b.base == c.base) = true := fun h =>
        same (eq_of_base hb there (beq_iff_eq.1 h))
      have outside : ¬Within c.base offset data.size x := by
        intro within
        refine same (eq_of_contains hb there bx ((c.contains_iff x).2 ?_))
        rw [Within] at within
        rw [Bank.stop]
        omega
      rw [if_neg elsewhere, if_neg outside]

theorem toMap_overwrite (s : AddressSpace) (base : UInt16) (offset : Nat) (data : ByteArray) :
    (s.overwrite base offset data).toMap = s.toMap.overwrite base offset data := by
  cases hc : s.bank? base with
  | none =>
    have absent : s.toMap.extent base = none := congrArg (Option.map Bank.size) hc
    rw [MemoryMap.overwrite_of_absent absent, overwrite_eq_self]
    rw [hc]
    exact fun c h => nomatch h
  | some c =>
    by_cases fits : offset + data.size ≤ c.size
    · refine MemoryMap.ext (funext fun x => ?_) ?_
      · rw [cell_overwrite hc fits, MemoryMap.cell_overwrite (extent_toMap hc) fits]
      · rw [overwrite, extent_mapBanks, MemoryMap.extent_overwrite]
    · rw [MemoryMap.overwrite_of_not_fits (extent_toMap hc) fits, overwrite_eq_self]
      rw [hc]
      rintro d ⟨⟩
      exact fits

theorem toMap_fill (base : UInt16) (items : List (Nat × ByteArray)) :
    ∀ s : AddressSpace, (s.fill base items).toMap = s.toMap.fill base items := by
  induction items with
  | nil => exact fun _ => rfl
  | cons item items ih =>
    intro s
    show ((s.overwrite base item.1 item.2).fill base items).toMap = _
    rw [ih, toMap_overwrite]
    rfl

/-! ### What a registration does to the map -/

section Register

variable {t : AddressSpace} {r : Registration}

theorem contains_bank_iff (sound : r.Sound) :
    (r.bank sound).contains a = true ↔ Within r.base 0 r.length a := by
  rw [Bank.contains_iff, Registration.stop_bank]
  rfl

/-- The bank that was put in answers its addresses, and for the others nothing has changed. -/
theorem toMap_of_insertBank (sound : r.Sound)
    (banks : t.banks = insertBank (r.bank sound) s.banks) : t.toMap = s.toMap.define r := by
  have mem {b : Bank} : b ∈ t.banks ↔ b = r.bank sound ∨ b ∈ s.banks := by
    rw [banks, mem_insertBank]
  refine MemoryMap.ext (funext fun a => ?_) (funext fun base => ?_)
  · show _ = if Within r.base 0 r.length a then _ else _
    by_cases inside : Within r.base 0 r.length a
    · have answers := (contains_bank_iff sound).2 inside
      rw [if_pos inside, cell_toMap (mem.2 (.inl rfl)) answers, Bank.cell,
        Bank.read_of_contains answers]
      rfl
    · have silent : ¬(r.bank sound).contains a = true := fun h =>
        inside ((contains_bank_iff sound).1 h)
      rw [if_neg inside, cell_toMap_eq_map, cell_toMap_eq_map]
      congr 1
      refine Option.ext fun b => ?_
      rw [bankOf?_eq_some_iff, bankOf?_eq_some_iff, mem]
      constructor
      · rintro ⟨rfl | hb, ba⟩
        · exact absurd ba silent
        · exact ⟨hb, ba⟩
      · rintro ⟨hb, ba⟩
        exact ⟨.inr hb, ba⟩
  · show _ = if base = r.base then _ else _
    by_cases begins : base = r.base
    · rw [if_pos begins, extent_toMap (bank?_eq_some_iff.2 ⟨mem.2 (.inl rfl), begins.symm⟩)]
      exact congrArg some sound.2.2
    · rw [if_neg begins]
      show (t.bank? base).map Bank.size = (s.bank? base).map Bank.size
      congr 1
      refine Option.ext fun b => ?_
      rw [bank?_eq_some_iff, bank?_eq_some_iff, mem]
      constructor
      · rintro ⟨rfl | hb, hbase⟩
        · exact absurd hbase.symm begins
        · exact ⟨hb, hbase⟩
      · rintro ⟨hb, hbase⟩
        exact ⟨.inr hb, hbase⟩

/-- A bank is in the way if and only if it answers one of the addresses asked for. -/
theorem overlaps_eq_true_iff (sound : r.Sound) : b.overlaps r.base r.length = true ↔
    ∃ i < r.length, b.contains (addressAt r.base i) = true := by
  obtain ⟨nonempty, fits, -⟩ := sound
  rw [Bank.overlaps, Bool.and_eq_true, decide_eq_true_eq, decide_eq_true_eq]
  constructor
  · rintro ⟨above, below⟩
    -- The first address that both answer is the higher one of the two bases.
    refine ⟨b.base.toNat - r.base.toNat, by omega, ?_⟩
    rw [Bank.contains_iff, toNat_addressAt (by omega)]
    have := b.base_lt_stop
    omega
  · rintro ⟨i, hi, answers⟩
    rw [Bank.contains_iff, toNat_addressAt (by omega)] at answers
    omega

/-- The address space accepts what the map admits. -/
theorem admits_toMap_iff : s.toMap.Admits r ↔ r.Sound ∧ s.Free r := by
  refine and_congr_right fun sound => ?_
  constructor
  · intro unmapped c hc
    rw [Bool.eq_false_iff]
    intro overlaps
    obtain ⟨i, hi, answers⟩ := (overlaps_eq_true_iff sound).1 overlaps
    have mapped := cell_toMap hc answers
    rw [unmapped i hi] at mapped
    cases mapped
  · intro free i hi
    refine cell_toMap_eq_none fun b hb answers => ?_
    exact Bool.eq_false_iff.1 (free b hb) ((overlaps_eq_true_iff sound).2 ⟨i, hi, answers⟩)

theorem toMap_register (s : AddressSpace) (r : Registration) :
    (s.change (.register r)).toMap = s.toMap.change (.register r) := by
  rw [MemoryMap.change]
  by_cases h : r.Sound ∧ s.Free r
  · obtain ⟨t, ok, banks⟩ := exists_register h.1 h.2
    rw [if_pos (admits_toMap_iff.2 h), change_register_of_ok ok, toMap_fill,
      toMap_of_insertBank h.1 banks]
  · rw [if_neg (mt admits_toMap_iff.1 h), change_register_of_refused h]

end Register

/-- **One change**: what it does to the address space it does to the map. -/
theorem toMap_change (s : AddressSpace) (c : MemoryChange) :
    (s.change c).toMap = s.toMap.change c := by
  cases c with
  | register r => exact toMap_register s r
  | write a v => exact toMap_write s a v
  | overwrite base offset data => exact toMap_overwrite s base offset data

/-- **Any changes**: what they do to the address space they do to the map. -/
theorem toMap_after (changes : List MemoryChange) :
    ∀ s : AddressSpace, (s.after changes).toMap = s.toMap.after changes := by
  induction changes with
  | nil => exact fun _ => rfl
  | cons c changes ih =>
    intro s
    show ((s.change c).after changes).toMap = _
    rw [ih, toMap_change]
    rfl

/-! ### What the map answers -/

/-- An address space answers every question as a map does, and accepts the banks that it admits. -/
structure AnswersAs (s : AddressSpace) (m : MemoryMap) : Prop where
  /-- The byte at an address. -/
  read : ∀ a, s.read a = m.read a
  /-- Whether an address is mapped. -/
  isMapped : ∀ a, s.isMapped a = m.isMapped a
  /-- The bank that begins at an address. -/
  bank? : ∀ base, (s.bank? base).map Bank.view = m.bank? base
  /-- The banks in their order. -/
  banks : s.banks.map Bank.view = m.banks
  /-- Whether a bank is accepted. -/
  register : ∀ r : Registration,
    (∃ t, s.register r.base r.length r.initial r.readOnly = .ok t) ↔ m.Admits r

theorem read_toMap (s : AddressSpace) (a : UInt16) : s.read a = s.toMap.read a := by
  unfold read
  rw [MemoryMap.read, cell_toMap_eq_map]
  cases s.bankOf? a with
  | none => rfl
  | some b => rfl

theorem isMapped_toMap (s : AddressSpace) (a : UInt16) : s.isMapped a = s.toMap.isMapped a := by
  rw [isMapped_eq, MemoryMap.isMapped, cell_toMap_eq_map, Option.isSome_map]

theorem bank?_toMap (s : AddressSpace) (base : UInt16) :
    (s.bank? base).map Bank.view = s.toMap.bank? base := by
  rw [MemoryMap.bank?]
  cases hb : s.bank? base with
  | none =>
    have absent : s.toMap.extent base = none := congrArg (Option.map Bank.size) hb
    rw [absent]
    rfl
  | some b =>
    obtain ⟨hb', rfl⟩ := bank?_eq_some_iff.1 hb
    have contents : b.contents = Bytes.ofFn b.size fun i => s.toMap.read (addressAt b.base i) := by
      refine ByteArray.ext_getElem (Bytes.size_ofFn _ _).symm fun i hi _ => ?_
      have place : (addressAt b.base i).toNat = b.base.toNat + i :=
        toNat_addressAt (Nat.lt_of_lt_of_le (Nat.add_lt_add_left hi _) b.fits)
      have answers : b.contains (addressAt b.base i) = true := by
        rw [Bank.contains_iff, place]
        exact ⟨Nat.le_add_right _ _, Nat.add_lt_add_left hi _⟩
      rw [Bytes.getElem_ofFn, MemoryMap.read, cell_toMap hb' answers]
      show _ = b.read _
      rw [Bank.read_of_contains answers, Bank.offset, place, Nat.add_sub_cancel_left,
        Bytes.get_of_lt hi]
    rw [extent_toMap hb, Option.map_some, Option.map_some, cell_toMap hb' b.contains_base, ← contents]
    rfl

/-! The row of banks, from the bank at each address. -/

theorem pairwise_addresses : addresses.Pairwise (· < ·) := by
  refine List.pairwise_map.2 ?_
  refine List.Pairwise.imp_of_mem (fun {i j} hi hj h => ?_) (List.pairwise_lt_range (n := 0x10000))
  rw [UInt16.lt_iff_toNat_lt, UInt16.toNat_ofNat_of_lt' (List.mem_range.1 hi),
    UInt16.toNat_ofNat_of_lt' (List.mem_range.1 hj)]
  exact h

theorem mem_addresses (a : UInt16) : a ∈ addresses := by
  refine List.mem_map.2 ⟨a.toNat, List.mem_range.2 a.toNat_lt, ?_⟩
  rw [UInt16.ofNat_toNat]

/-- Asking for the bank at each address gives the row. -/
theorem filterMap_bank? (s : AddressSpace) : addresses.filterMap s.bank? = s.banks := by
  refine Bank.eq_of_mem_iff ?_ s.pairwise_base fun b => ?_
  · refine List.pairwise_filterMap.2 (pairwise_addresses.imp fun {x y} h b hb c hc => ?_)
    rw [(bank?_eq_some_iff.1 hb).2, (bank?_eq_some_iff.1 hc).2]
    exact h
  · rw [List.mem_filterMap]
    constructor
    · rintro ⟨base, -, hb⟩
      exact (bank?_eq_some_iff.1 hb).1
    · intro hb
      exact ⟨b.base, mem_addresses _, bank?_eq_some_iff.2 ⟨hb, rfl⟩⟩

theorem banks_toMap (s : AddressSpace) : s.banks.map Bank.view = s.toMap.banks := by
  have same : s.toMap.bank? = fun base => (s.bank? base).map Bank.view :=
    funext fun base => (bank?_toMap s base).symm
  rw [MemoryMap.banks, same, ← List.map_filterMap, filterMap_bank?]

theorem answersAs_toMap (s : AddressSpace) : s.AnswersAs s.toMap where
  read := read_toMap s
  isMapped := isMapped_toMap s
  bank? := bank?_toMap s
  banks := banks_toMap s
  register r := by
    rw [admits_toMap_iff]
    constructor
    · rintro ⟨t, ok⟩
      obtain ⟨sound, free, -⟩ := register_eq_ok_iff.1 ok
      exact ⟨sound, free⟩
    · rintro ⟨sound, free⟩
      obtain ⟨t, ok, -⟩ := exists_register sound free
      exact ⟨t, ok⟩

/-! ### The row of banks -/

/-- The row is laid out as looking for a bank by halving relies on. -/
structure WellLaid (s : AddressSpace) : Prop where
  /-- The bases ascend. -/
  sorted : s.banks.Pairwise (·.base < ·.base)
  /-- No two banks answer one address. -/
  disjoint : s.banks.Pairwise fun b c => ∀ a, ¬(b.contains a = true ∧ c.contains a = true)
  /-- Every bank has a byte. -/
  nonempty : ∀ b ∈ s.banks, 0 < b.size
  /-- Every bank ends within the address range. -/
  fits : ∀ b ∈ s.banks, b.base.toNat + b.size ≤ 0x10000
  /-- Of the banks that begin at or below an address the last one is the only one to look at. -/
  search : ∀ a, s.search a = s.bankOf? a
  /-- A new bank comes behind those that begin below it. -/
  place : ∀ (r : Registration) (t : AddressSpace),
    s.register r.base r.length r.initial r.readOnly = .ok t →
      ∃ b : Bank, b.base = r.base ∧ t.banks =
        s.banks.take (cut (fun c => decide (c.base < r.base)) s.banks) ++
          b :: s.banks.drop (cut (fun c => decide (c.base < r.base)) s.banks)

theorem wellLaid (s : AddressSpace) : s.WellLaid where
  sorted := s.pairwise_base
  disjoint := s.ordered.imp fun h _ both => Bank.Apart.not_contains (.inl h) both.1 both.2
  nonempty b _ := b.nonempty
  fits b _ := b.fits
  search := s.search_eq_bankOf?
  place r t ok := by
    obtain ⟨sound, free, banks⟩ := register_eq_ok_iff.1 ok
    refine ⟨r.bank sound, rfl, ?_⟩
    rw [banks]
    exact s.insertBank_eq_at_cut (r.bank sound) fun c hc => base_ne_of_free sound free hc

/-! ### The main result -/

/-- **An address space is a partial map.** After any changes, accepted or not, it answers as the map
does after the same changes; its row of banks is well laid; and further registrations that are apart
leave in the row what each of them would leave alone, in whatever order they come. -/
theorem answers_as_map (changes : List MemoryChange) :
    let s := empty.after changes
    s.AnswersAs (MemoryMap.empty.after changes) ∧ s.WellLaid ∧
      ∀ l l' : List Registration, l.Pairwise Registration.Apart → l'.Perm l →
        (s.after (l'.map .register)).banks = (s.after (l.map .register)).banks ∧
          (s.after (l.map .register)).banks.Perm (s.banks ++ l.filterMap s.taken?) := by
  intro s
  have map : s.toMap = MemoryMap.empty.after changes := toMap_after changes empty
  refine ⟨map ▸ s.answersAs_toMap, s.wellLaid, fun l l' apart perm => ⟨?_, ?_⟩⟩
  · rw [after_perm s apart perm]
  · exact perm_after_register l s apart

/-! A case of it: the last two addresses and then the first three, which are filled but take no
writes; a bank at the third address is refused, and one write of two is without effect. -/

/-- A bank of zeros that takes writes. -/
def zeros (base : UInt16) (length : Nat) : Registration where
  base
  length
  initial := none
  readOnly := false

/-- Banks at both ends of the range, and what is done to them. -/
def bothEnds : List MemoryChange :=
  [.register { zeros 0xFFFE 2 with initial := some (Bytes.ofList [1, 2]) },
    .register { zeros 0 3 with readOnly := true, fill := [(0, Bytes.ofList [0xDE, 0xAD])] },
    .register (zeros 2 2), .write 1 0, .write 0xFFFF 7, .overwrite 0 2 (Bytes.ofList [0x5A])]

theorem bothEnds_answer_as_map :
    let s := empty.after bothEnds
    s.AnswersAs (MemoryMap.empty.after bothEnds) ∧ s.WellLaid ∧
      s.banks.map Bank.base = [0, 0xFFFE] ∧
      [0, 1, 2, 3, 0xFFFE, 0xFFFF].map s.read = [0xDE, 0xAD, 0x5A, 0, 1, 7] ∧
      [zeros 0x20 8, zeros 3 1].Pairwise Registration.Apart ∧
      [zeros 3 1, zeros 0x20 8].Perm [zeros 0x20 8, zeros 3 1] ∧
      (s.after [.register (zeros 3 1), .register (zeros 0x20 8)]).banks =
        (s.after [.register (zeros 0x20 8), .register (zeros 3 1)]).banks := by
  intro s
  obtain ⟨answers, laid, order⟩ := answers_as_map bothEnds
  have apart : [zeros 0x20 8, zeros 3 1].Pairwise Registration.Apart := by decide
  have perm : [zeros 3 1, zeros 0x20 8].Perm [zeros 0x20 8, zeros 3 1] := .swap _ _ _
  obtain ⟨same, -⟩ := order _ _ apart perm
  exact ⟨answers, laid, by decide, by decide, apart, perm, same⟩

end AddressSpace

end Cabinet
