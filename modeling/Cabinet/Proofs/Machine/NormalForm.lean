import Cabinet.Proofs.Machine.SaveLoad
/-!
# The normal form of saved bytes

Bytes that are read and written again come back as they were, but for what the record does not keep. Two
layers keep less than the bytes have. The record keeps a truth value of each of four bytes
(`SaveState.keptByte`). A machine that takes the record keeps of the flag byte the five flags, and of the
offset of the shifter three bits (`Machine.keptByte`). Every other byte comes back, whatever it is: also
those of a speed that is no number.

The bytes of a record are compared in three runs: the 55 bytes in front of the picture, which have a field
for every place (`leadBytes_recordAt`), the picture and the memory. What a machine gives back is in normal
form, so that loading and saving once more changes nothing.
-/

namespace Cabinet

/-! ### What a record keeps -/

namespace SaveState

/-- What the record keeps of the byte at a place: of four bytes whether they are zero. -/
def keptByte (i : Nat) (v : UInt8) : UInt8 :=
  if i ∈ [20, 21, 49, 54] then if v = 0 then 0 else 1 else v

variable {b : ByteArray} {s : SaveState}

theorem boolByte_boolAt (b : ByteArray) (i : Nat) :
    boolByte (boolAt b i) = if Bytes.get b i = 0 then 0 else 1 := by
  by_cases h : Bytes.get b i = 0 <;> simp [boolByte, boolAt, h]

/-- The header of a save state, byte by byte. -/
theorem header_bytes (mark : (List.range 4).map (Bytes.get b) = magic)
    (number : Little.word32 b 4 = version) :
    magic ++ Little.encode 4 version.toNat = (List.range 8).map (Bytes.get b) := by
  rw [← mark, ← number, Little.encode_word32]
  rfl

/-- In front of the picture there is a field for every place. -/
theorem leadBytes_recordAt (mark : (List.range 4).map (Bytes.get b) = magic)
    (number : Little.word32 b 4 = version) :
    (recordAt b).leadBytes = (List.range 55).map fun i => keptByte i (Bytes.get b i) := by
  rw [leadBytes, header_bytes mark number]
  simp only [recordAt, cpuAt, Little.encode_word16, Little.encode_word32, Little.encode_word64,
    boolByte_boolAt]
  rfl

/-- The picture of a record that was read has the bytes that it was read from. -/
theorem get_toBytes_pixel (pixels : s.pixels = (recordAt b).pixels) {k j : Nat} (hk : k < pixelCount)
    (hj : j < 4) : Bytes.get s.toBytes (55 + 4 * k + j) = Bytes.get b (55 + 4 * k + j) := by
  have size : s.pixels.size = pixelCount := by rw [pixels, recordAt, Array.size_ofFn]
  have inside : k < s.pixels.size := by rwa [size]
  have pixel : s.pixels[k] = Little.word32 b (55 + 4 * k) := by
    simp only [pixels, recordAt, Array.getElem_ofFn]
    rfl
  have bytes := s.has_pixel inside
  rw [pixel, Little.encode_word32] at bytes
  obtain ⟨h0, h1, h2, h3, -⟩ := bytes
  obtain rfl | rfl | rfl | rfl : j = 0 ∨ j = 1 ∨ j = 2 ∨ j = 3 := by omega
  · exact h0
  · exact h1
  · exact h2
  · exact h3

/-- The memory of a record that was read is what it was read from. -/
theorem get_toBytes_ram (size : s.pixels.size = pixelCount) (hb : b.size = encodedSize)
    (ram : s.ram = (recordAt b).ram) {i : Nat} (hi : 229431 ≤ i) (hi' : i < encodedSize) :
    Bytes.get s.toBytes i = Bytes.get b i := by
  have length : s.ram.size = Board.ramSize := by
    rw [ram, recordAt, ByteArray.size_extract, hb]
    rfl
  have same : s.toBytes.extract 229431 encodedSize = b.extract 229431 encodedSize :=
    (s.extract_toBytes size length).trans ram
  have there := congrArg (Bytes.get · (i - 229431)) same
  simpa only [Bytes.get_extract, Nat.add_sub_cancel' hi, if_pos hi'] using there

/-- A record with the picture and the memory of `b` has the bytes of `b` from the picture on. -/
theorem toBytes_eq_mapIdx {f : Nat → UInt8 → UInt8} (hb : b.size = encodedSize)
    (pixels : s.pixels = (recordAt b).pixels) (ram : s.ram = (recordAt b).ram)
    (lead : s.leadBytes = (List.range 55).map fun i => f i (Bytes.get b i))
    (rest : ∀ i v, 55 ≤ i → f i v = v) : s.toBytes = Bytes.mapIdx b f := by
  have count : s.pixels.size = pixelCount := by rw [pixels, recordAt, Array.size_ofFn]
  have length : s.ram.size = Board.ramSize := by
    rw [ram, recordAt, ByteArray.size_extract, hb]
    rfl
  have size : s.toBytes.size = encodedSize := by
    rw [size_toBytes, count, length]
    rfl
  refine Bytes.eq_of_get (by rw [size, Bytes.size_mapIdx, hb]) fun i hi => ?_
  rw [size] at hi
  rw [Bytes.get_mapIdx (hb ▸ hi)]
  by_cases inLead : i < 55
  · have there := Bytes.has_iff_getElem.1 s.has_leadBytes i (by rw [length_leadBytes]; exact inLead)
    rw [← Nat.zero_add i, there]
    simp [lead]
  rw [rest i _ (Nat.le_of_not_lt inLead)]
  by_cases inPicture : i < 229431
  · have place : i = 55 + 4 * ((i - 55) / 4) + (i - 55) % 4 := by omega
    rw [place]
    exact get_toBytes_pixel pixels (by rw [pixelCount_eq]; omega) (Nat.mod_lt _ (by decide))
  · exact get_toBytes_ram count hb ram (Nat.le_of_not_lt inPicture) hi

theorem keptByte_of_le {i : Nat} {v : UInt8} (h : 55 ≤ i) : keptByte i v = v := by
  refine if_neg ?_
  simp only [List.mem_cons, List.not_mem_nil, or_false]
  omega

/-- **What was read is written as it was**, but for the truth values. -/
theorem toBytes_of_ofBytes (h : ofBytes b = .ok s) : s.toBytes = Bytes.mapIdx b keptByte := by
  obtain ⟨size, mark, number, -, rfl⟩ := ofBytes_eq_ok_iff.1 h
  exact toBytes_eq_mapIdx size rfl rfl (leadBytes_recordAt mark number) fun _ _ => keptByte_of_le

end SaveState

/-! ### What a machine keeps -/

namespace Machine

/-- What a machine keeps of the byte at a place: of the flag byte the flags, of the offset of the
shifter the three low bits, and else what the record keeps. -/
def keptByte (i : Nat) (v : UInt8) : UInt8 :=
  if i = 15 then (v &&& 0xD5) ||| 0x02
  else if i = 28 then v &&& 7
  else SaveState.keptByte i v

theorem flagByte_flagByte (v : UInt8) :
    (((v &&& 0xD5) ||| 0x02) &&& 0xD5) ||| 0x02 = (v &&& 0xD5) ||| 0x02 := by
  rw [← Flags.toByte_ofByte, ← Flags.toByte_ofByte, Flags.ofByte_toByte]

/-- What is kept once is kept. -/
theorem keptByte_keptByte (i : Nat) (v : UInt8) : keptByte i (keptByte i v) = keptByte i v := by
  unfold keptByte
  split
  · exact flagByte_flagByte v
  split
  · rw [UInt8.and_assoc, UInt8.and_self]
  unfold SaveState.keptByte
  split
  · split <;> simp
  · rfl

theorem mapIdx_keptByte_twice (b : ByteArray) :
    Bytes.mapIdx (Bytes.mapIdx b keptByte) keptByte = Bytes.mapIdx b keptByte := by
  refine Bytes.eq_of_get (Bytes.size_mapIdx ..) fun i hi => ?_
  rw [Bytes.size_mapIdx, Bytes.size_mapIdx] at hi
  rw [Bytes.get_mapIdx (by rwa [Bytes.size_mapIdx]), Bytes.get_mapIdx hi, keptByte_keptByte]

variable {b : ByteArray} {s : SaveState} {rom : Block} {checksums : List UInt32} {m n : Machine}

theorem pixels_normalised (s : SaveState) : s.normalised.pixels = s.pixels := rfl

theorem ram_normalised (s : SaveState) : s.normalised.ram = s.ram := rfl

open SaveState in
/-- The bytes of a record that has been through a machine. -/
theorem toBytes_normalised (h : ofBytes b = .ok s) :
    s.normalised.toBytes = Bytes.mapIdx b keptByte := by
  obtain ⟨size, mark, number, -, rfl⟩ := ofBytes_eq_ok_iff.1 h
  refine toBytes_eq_mapIdx size (pixels_normalised _) (ram_normalised _) ?_ fun i v hi => ?_
  · -- Only the flag byte and the offset are not those of the record that was read.
    rw [leadBytes, header_bytes mark number]
    simp only [normalised, recordAt, cpuAt, Little.encode_word16, Little.encode_word32,
      Little.encode_word64, boolByte_boolAt]
    rfl
  · rw [keptByte, if_neg (by omega), if_neg (by omega), SaveState.keptByte_of_le hi]

/-- What a machine saves that has loaded bytes. -/
theorem Sound.save_of_load (hm : m.Sound rom checksums) (h : SaveState.ofBytes b = .ok s)
    (hn : m.load b = .ok n) : n.save = Bytes.mapIdx b keptByte := by
  rw [load_of_ok h, Except.ok.injEq] at hn
  rw [save, ← hn, hm.capture_put (SaveState.validate_of_ofBytes h), toBytes_normalised h]

/-- What a machine has saved is read. -/
theorem Sound.ofBytes_save (hm : m.Sound rom checksums) : SaveState.ofBytes m.save = .ok m.capture :=
  SaveState.ofBytes_toBytes hm.validate_capture

theorem Reachable.load {chips : Chips} (hm : m.Reachable chips) (h : m.load b = .ok n) :
    n.Reachable chips := by
  have loaded : (m.perform (.load b)).2 = n := by
    rw [Machine.perform, h]
    rfl
  exact loaded ▸ hm.perform (.load b)

/-- **The normal form of bytes that are read.** Written again, they are as they were, but for the truth
values, each of which is now zero or one. A machine that loads them saves them as they were, but for
these, the flag byte and the offset of the shifter; every machine that loads what it saves will save just
that. -/
theorem load_save_normal_form {b : ByteArray} {s : SaveState} (h : SaveState.ofBytes b = .ok s) :
    s.toBytes = Bytes.mapIdx b SaveState.keptByte ∧
      ∀ (chips : Chips) (m : Machine), m.Reachable chips →
        ∃ n, m.load b = .ok n ∧ n.save = Bytes.mapIdx b keptByte ∧ n.save.size = 237623 ∧
          ∀ (chips' : Chips) (m' : Machine), m'.Reachable chips' →
            ∃ n', m'.load n.save = .ok n' ∧ n'.save = n.save := by
  refine ⟨SaveState.toBytes_of_ofBytes h, fun chips m hm => ?_⟩
  obtain ⟨_, _, sound⟩ := exists_sound chips
  have loaded := load_of_ok (m := m) h
  have saved := (sound hm).save_of_load h loaded
  have read := (sound (hm.load loaded)).ofBytes_save
  refine ⟨_, loaded, saved, ?_, fun chips' m' hm' => ?_⟩
  · rw [saved, Bytes.size_mapIdx]
    exact (SaveState.ofBytes_eq_ok_iff.1 h).1
  · obtain ⟨_, _, sound'⟩ := exists_sound chips'
    refine ⟨_, load_of_ok read, ?_⟩
    rw [(sound' hm').save_of_load read (load_of_ok read), saved, mapIdx_keptByte_twice]

/-- Every bit in front of the picture is set, but for those of the mark, of the version and of the pending
cycles. -/
def blottedLead : List UInt8 :=
  SaveState.magic ++ Little.encode 4 1 ++ List.replicate 14 0xFF ++ Little.encode 4 11 ++
    List.replicate 29 0xFF

/-- A save state whose speed is no number, and whose truth values are neither zero nor one. -/
def blotted : ByteArray := Bytes.ofList blottedLead ++ Bytes.zeros 237568

theorem ofBytes_blotted : SaveState.ofBytes blotted = .ok (SaveState.recordAt blotted) := by
  have lead : Bytes.Has blotted 0 blottedLead := Bytes.has_ofList_append _ _
  have size : blotted.size = SaveState.encodedSize := by
    rw [blotted, ByteArray.size_append, Bytes.size_ofList, Bytes.size_zeros]
    rfl
  simp only [blottedLead, Bytes.has_append, and_assoc] at lead
  obtain ⟨⟨h0, h1, h2, h3, -⟩, version, -, pending, -⟩ := lead
  refine SaveState.ofBytes_eq_ok_iff.2 ⟨size, ?_, Little.word32_of_has version, .inr ?_, rfl⟩
  · simp [List.range_succ, SaveState.magic, h0, h1, h2, h3]
  · exact Little.word32_of_has (w := 11) pending

theorem idle_saves_blotted_normalised :
    SaveState.ofBytes blotted = .ok (SaveState.recordAt blotted) ∧ idle.Reachable idleChips ∧
      ∃ n, idle.load blotted = .ok n ∧ n.save = Bytes.mapIdx blotted keptByte ∧
        Bytes.get n.save 15 = 0xD7 ∧ Bytes.get n.save 21 = 1 ∧ Bytes.get n.save 28 = 7 ∧
        ∃ n', n.load n.save = .ok n' ∧ n'.save = n.save := by
  obtain ⟨n, loaded, saved, -, again⟩ := (load_save_normal_form ofBytes_blotted).2 _ _ reachable_idle
  have size : blotted.size = 237623 := (SaveState.ofBytes_eq_ok_iff.1 ofBytes_blotted).1
  have kept (i : Nat) (hi : i < 55) : Bytes.get n.save i = keptByte i blottedLead[i] := by
    have there := Bytes.has_iff_getElem.1 (Bytes.has_ofList_append blottedLead (Bytes.zeros 237568)) i hi
    rw [Nat.zero_add] at there
    rw [saved, Bytes.get_mapIdx (by omega), ← there]
    rfl
  exact ⟨ofBytes_blotted, reachable_idle, n, loaded, saved, (kept 15 (by decide)).trans (by decide),
    (kept 21 (by decide)).trans (by decide), (kept 28 (by decide)).trans (by decide),
    again _ _ (reachable_idle.load loaded)⟩

end Machine

end Cabinet
