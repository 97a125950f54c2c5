import Cabinet.Proofs.Outcome
import Cabinet.SaveState.Codec
/-!
# Writing and reading save states

What `SaveState.ofBytes` reads is what `SaveState.toBytes` has written, for exactly the records that
`SaveState.validate` passes.

* `ofBytes_eq_ok_iff` — reading succeeds on the strings of the right size that begin with the mark and
  the version and hold a number of pending cycles that an interrupt leaves; then every field of the
  record stands at its place in the bytes (`recordAt`).
* `validate_of_ofBytes` — so a record that was read passes the check.
* `recordAt_toBytes` — a record whose picture and memory have their lengths is found at those places
  in what was written for it.
-/

namespace Cabinet.SaveState

theorem pixelCount_eq : pixelCount = 57344 := rfl

theorem encodedSize_eq : encodedSize = 237623 := rfl

/-! ### Where the bytes of a record are -/

theorem size_pixelBytes (px : Array UInt32) : (pixelBytes px).size = 4 * px.size := by
  simp [pixelBytes]

theorem length_leadBytes (s : SaveState) : s.leadBytes.length = Section.pixels.start := by
  simp [leadBytes, magic, Section.pixels]

theorem size_toBytes (s : SaveState) :
    s.toBytes.size = Section.pixels.start + 4 * s.pixels.size + s.ram.size := by
  simp [toBytes, size_pixelBytes, length_leadBytes]

theorem has_leadBytes (s : SaveState) : Bytes.Has s.toBytes 0 s.leadBytes := by
  rw [toBytes, ByteArray.append_assoc]
  exact Bytes.has_ofList_append _ _

theorem has_pixel (s : SaveState) {i : Nat} (hi : i < s.pixels.size) :
    Bytes.Has s.toBytes (Section.pixels.start + 4 * i) (Little.encode 4 s.pixels[i].toNat) := by
  refine Bytes.has_iff_getElem.2 fun k hk => ?_
  rw [Little.length_encode] at hk
  have hlt : 4 * i + k < (pixelBytes s.pixels).size := by rw [size_pixelBytes]; omega
  rw [Little.getElem_encode, toBytes, ByteArray.append_assoc, Bytes.get_append, Bytes.size_ofList,
    length_leadBytes, if_neg (by omega), Nat.add_assoc, Nat.add_sub_cancel_left, Bytes.get_append,
    if_pos hlt, Bytes.get_of_lt hlt]
  simp only [pixelBytes, Bytes.getElem_ofFn]
  congr 2
  · congr 1; omega
  · omega

theorem extract_toBytes (s : SaveState) (hp : s.pixels.size = pixelCount)
    (hr : s.ram.size = Board.ramSize) : s.toBytes.extract Section.ram.start encodedSize = s.ram := by
  refine ByteArray.extract_append_eq_right ?_ ?_ <;>
    simp [size_pixelBytes, length_leadBytes, hp, hr, encodedSize, Section.ram, Section.pixels]

/-! ### What is found at the places of the fields -/

theorem boolByte_ne_zero (b : Bool) : (boolByte b != 0) = b := by cases b <;> rfl

/-- The processor is found where it was put. -/
theorem cpuAt_toBytes (s : SaveState) : cpuAt s.toBytes = s.cpu := by
  have lead := s.has_leadBytes
  simp only [leadBytes, magic, Bytes.has_append, Bytes.Has, List.length_append, List.length_cons,
    List.length_nil, Little.length_encode, Nat.reduceAdd, and_true, and_assoc] at lead
  obtain ⟨-, -, -, -, -, a, b, c, d, e, h, l, f, sp, pc, inte, halted, pending, -⟩ := lead
  rw [cpuAt, boolAt, boolAt, a, b, c, d, e, h, l, f, Little.word16_of_has sp,
    Little.word16_of_has pc, inte, halted, Little.word32_of_has pending]
  simp only [boolByte_ne_zero]

/-- **Every field is found where it was put**, if the picture and the memory have their lengths. -/
theorem recordAt_toBytes (s : SaveState) (hp : s.pixels.size = pixelCount)
    (hr : s.ram.size = Board.ramSize) : recordAt s.toBytes = s := by
  have lead := s.has_leadBytes
  simp only [leadBytes, magic, Bytes.has_append, Bytes.Has, List.length_append, List.length_cons,
    List.length_nil, Little.length_encode, Nat.reduceAdd, and_true, and_assoc] at lead
  obtain ⟨-, -, -, -, -, -, -, -, -, -, -, -, -, -, -, -, -, -, shift, offset, input, first, second,
    third, frames, cycles, headless, speed, uncapped⟩ := lead
  have pixels : (Array.ofFn fun i : Fin pixelCount =>
      Little.word32 s.toBytes (Section.pixels.start + 4 * i)) = s.pixels := by
    refine Array.ext (by rw [Array.size_ofFn, hp]) fun i _ hi => ?_
    rw [Array.getElem_ofFn]
    exact Little.word32_of_has (s.has_pixel hi)
  rw [recordAt, cpuAt_toBytes, boolAt, boolAt, Little.word16_of_has shift, offset, input, first,
    second, third, Little.word64_of_has frames, Little.word64_of_has cycles, headless,
    Little.word32_of_has speed, uncapped, pixels, s.extract_toBytes hp hr]
  simp only [boolByte_ne_zero]

/-- The mark and the version are found where they were put. -/
theorem header_toBytes (s : SaveState) :
    (List.range 4).map (Bytes.get s.toBytes) = magic ∧ Little.word32 s.toBytes 4 = version := by
  have lead := s.has_leadBytes
  simp only [leadBytes, magic, Bytes.has_append, Bytes.Has, List.length_append, List.length_cons,
    List.length_nil, Little.length_encode, Nat.reduceAdd, and_true, and_assoc] at lead
  obtain ⟨h0, h1, h2, h3, hv, -⟩ := lead
  refine ⟨?_, Little.word32_of_has hv⟩
  simp [List.range_succ, magic, h0, h1, h2, h3]

/-! ### What is refused -/

theorem checkPending_eq_ok_iff {n : UInt32} {u : Unit} :
    checkPending n = .ok u ↔ n = 0 ∨ n = interruptCycles := by
  unfold checkPending
  split <;> simp_all

theorem checkLengths_eq_ok_iff {s : SaveState} {u : Unit} :
    s.checkLengths = .ok u ↔ s.pixels.size = pixelCount ∧ s.ram.size = Board.ramSize := by
  unfold checkLengths
  split
  · simp_all
  · split <;> simp_all

theorem validate_eq_ok_iff {s : SaveState} :
    s.validate = .ok () ↔ (s.pixels.size = pixelCount ∧ s.ram.size = Board.ramSize) ∧
      (s.cpu.pending = 0 ∨ s.cpu.pending = interruptCycles) := by
  simp only [validate, bind_eq_ok_iff, checkLengths_eq_ok_iff, checkPending_eq_ok_iff, exists_const]

theorem Section.check_eq_ok_iff {s : Section} {b : ByteArray} {u : Unit} :
    s.check b = .ok u ↔ s.start + s.length ≤ b.size := by
  unfold Section.check
  split
  · simp only [reduceCtorEq, false_iff]; omega
  · simp only [true_iff]; omega

/-- **What is read**: strings of the right size that begin with the mark and the version and hold a
number of pending cycles that an interrupt leaves. -/
theorem ofBytes_eq_ok_iff {b : ByteArray} {s : SaveState} :
    ofBytes b = .ok s ↔ b.size = encodedSize ∧ (List.range 4).map (Bytes.get b) = magic ∧
      Little.word32 b 4 = version ∧
      ((cpuAt b).pending = 0 ∨ (cpuAt b).pending = interruptCycles) ∧ recordAt b = s := by
  simp only [ofBytes, bind_eq_ok_iff, ite_throw_eq_ok_iff, Section.check_eq_ok_iff,
    checkPending_eq_ok_iff, exists_const, ne_eq, Classical.not_not, pure, Except.pure,
    Except.ok.injEq, Nat.not_lt]
  simp only [encodedSize_eq, Section.header, Section.cpu, Section.machine, Section.pixels,
    Section.ram, pixelCount_eq, Board.ramSize]
  constructor
  · rintro ⟨-, hm, hv, -, hp, -, -, hr, ht, hs⟩
    exact ⟨by omega, hm, hv, hp, hs⟩
  · rintro ⟨hb, hm, hv, hp, hs⟩
    exact ⟨by omega, hm, hv, by omega, hp, by omega, by omega, by omega, by omega, hs⟩

/-- **What was read passes the check.** -/
theorem validate_of_ofBytes {b : ByteArray} {s : SaveState} (h : ofBytes b = .ok s) :
    s.validate = .ok () := by
  obtain ⟨hb, -, -, hp, rfl⟩ := ofBytes_eq_ok_iff.1 h
  refine validate_eq_ok_iff.2 ⟨⟨?_, ?_⟩, hp⟩
  · rw [recordAt, Array.size_ofFn]
  · rw [recordAt, ByteArray.size_extract, hb]
    rfl

/-- What was written has the right size and legal pending cycles: then it is read, as whatever
record. -/
theorem ofBytes_toBytes_of_size {s : SaveState}
    (hsize : 4 * s.pixels.size + s.ram.size = 4 * pixelCount + Board.ramSize)
    (hpending : s.cpu.pending = 0 ∨ s.cpu.pending = interruptCycles) :
    ofBytes s.toBytes = .ok (recordAt s.toBytes) := by
  have size : s.toBytes.size = encodedSize := by
    rw [size_toBytes, Nat.add_assoc, hsize]
    rfl
  obtain ⟨mark, version⟩ := s.header_toBytes
  exact ofBytes_eq_ok_iff.2 ⟨size, mark, version, by rw [cpuAt_toBytes]; exact hpending, rfl⟩

/-- What passes the check is read back. -/
theorem ofBytes_toBytes {s : SaveState} (h : s.validate = .ok ()) : ofBytes s.toBytes = .ok s := by
  obtain ⟨⟨hp, hr⟩, hc⟩ := validate_eq_ok_iff.1 h
  rw [ofBytes_toBytes_of_size (by rw [hp, hr]) hc, s.recordAt_toBytes hp hr]

/-! ### The check and the format agree -/

/-- **A record passes the check exactly if it is read back from its bytes.** If its picture and its
memory have wrong lengths that make up for each other, the check refuses it, and its bytes are read
all the same, but as another record. -/
theorem validate_iff_read_back (s : SaveState) :
    (s.validate = .ok () ↔ ofBytes s.toBytes = .ok s) ∧
      (s.pixels.size ≠ pixelCount →
        4 * s.pixels.size + s.ram.size = 4 * pixelCount + Board.ramSize →
        s.validate = .error (.sectionLength "pixel buffer" pixelCount s.pixels.size) ∧
          ofBytes s.toBytes ≠ .ok s ∧
          (s.cpu.pending = 0 ∨ s.cpu.pending = interruptCycles →
            ∃ t, ofBytes s.toBytes = .ok t ∧ t ≠ s)) := by
  refine ⟨⟨ofBytes_toBytes, validate_of_ofBytes⟩, fun hp hsize => ?_⟩
  have refused : s.validate = .error (.sectionLength "pixel buffer" pixelCount s.pixels.size) := by
    rw [validate, checkLengths, if_pos hp]
    rfl
  have other : ofBytes s.toBytes ≠ .ok s := fun h => by
    rw [validate_of_ofBytes h] at refused
    cases refused
  refine ⟨refused, other, fun hpending => ?_⟩
  have read := ofBytes_toBytes_of_size hsize hpending
  exact ⟨recordAt s.toBytes, read, fun h => other (read.trans (congrArg Except.ok h))⟩

/-- A record with a picture too short by as many bytes as its memory is too long. -/
def misfit : SaveState where
  pixels := Array.replicate 55296 0
  ram := Bytes.zeros 16384

theorem misfit_read_as_other :
    misfit.pixels.size ≠ pixelCount ∧
      4 * misfit.pixels.size + misfit.ram.size = 4 * pixelCount + Board.ramSize ∧
      misfit.validate = .error (.sectionLength "pixel buffer" pixelCount 55296) ∧
      ∃ t, ofBytes misfit.toBytes = .ok t ∧ t ≠ misfit := by
  have hp : misfit.pixels.size = 55296 := Array.size_replicate
  have hr : misfit.ram.size = 16384 := Bytes.size_zeros _
  have short : misfit.pixels.size ≠ pixelCount := by rw [hp]; decide
  have total : 4 * misfit.pixels.size + misfit.ram.size = 4 * pixelCount + Board.ramSize := by
    rw [hp, hr]; rfl
  obtain ⟨refused, -, read⟩ := (validate_iff_read_back misfit).2 short total
  exact ⟨short, total, hp ▸ refused, read (.inl rfl)⟩

end Cabinet.SaveState
