import Cabinet.Proofs.SaveState.Sections
/-!
# What becomes of bytes that are read

A byte string that is read as a save state has one of ten fates, which its length and three things in it
decide: the mark and the version that it begins with, and the pending cycles. The checks of the length
and those of the contents take turns, so that what is wrong in one section is found before it is looked
whether the next one is complete. `Verdict` lists the fates, each with all that has been looked at before
it. Every byte string has exactly one of them, and it is the one that the reader finds, whether it looks
up the fields in the whole string or goes through it section by section
(`SaveState.read_by_verdict`).
-/

namespace Cabinet.SaveState

/-- What becomes of a byte string. -/
inductive Verdict (b : ByteArray) : Except SaveStateError SaveState → Prop where
  /-- It ends within the header. -/
  | header (h : b.size < 8) : Verdict b (.error (.truncated "header" 8 b.size))
  /-- It begins with another mark. -/
  | badMagic (h : 8 ≤ b.size) (mark : markOf b ≠ [0x53, 0x49, 0x38, 0x30]) :
    Verdict b (.error (.badMagic (markOf b)))
  /-- It has another version. -/
  | unsupportedVersion (h : 8 ≤ b.size) (mark : markOf b = [0x53, 0x49, 0x38, 0x30])
      (version : versionOf b ≠ 1) : Verdict b (.error (.unsupportedVersion (versionOf b)))
  /-- It ends within the processor. -/
  | cpu (h : 8 ≤ b.size) (h' : b.size < 26) (headed : Headed b) :
    Verdict b (.error (.truncated "cpu" 18 (b.size - 8)))
  /-- It has pending cycles that no interrupt leaves. -/
  | pendingCycles (h : 26 ≤ b.size) (headed : Headed b) (pending : ¬Chargeable b) :
    Verdict b (.error (.pendingCycles (pendingOf b)))
  /-- It ends within the rest of the machine. -/
  | machine (h : 26 ≤ b.size) (h' : b.size < 55) (headed : Headed b) (pending : Chargeable b) :
    Verdict b (.error (.truncated "machine" 29 (b.size - 26)))
  /-- It ends within the picture. -/
  | pixels (h : 55 ≤ b.size) (h' : b.size < 229431) (headed : Headed b) (pending : Chargeable b) :
    Verdict b (.error (.truncated "pixel buffer" 229376 (b.size - 55)))
  /-- It ends within the memory. -/
  | ram (h : 229431 ≤ b.size) (h' : b.size < 237623) (headed : Headed b) (pending : Chargeable b) :
    Verdict b (.error (.truncated "ram" 8192 (b.size - 229431)))
  /-- It goes on behind the memory. -/
  | trailingData (h : 237623 < b.size) (headed : Headed b) (pending : Chargeable b) :
    Verdict b (.error (.trailingData (b.size - 237623)))
  /-- It is read. -/
  | accepted (h : b.size = 237623) (headed : Headed b) (pending : Chargeable b) :
    Verdict b (.ok (recordAt b))

variable {b : ByteArray} {r : Except SaveStateError SaveState}

/-! ### Every byte string has a fate -/

/-- With a header and a processor that are right, the length decides. -/
theorem exists_verdict_of_chargeable (h : 26 ≤ b.size) (headed : Headed b) (pending : Chargeable b) :
    ∃ r, Verdict b r := by
  obtain short | machine := Nat.lt_or_ge b.size 55
  · exact ⟨_, .machine h short headed pending⟩
  obtain short | pixels := Nat.lt_or_ge b.size 229431
  · exact ⟨_, .pixels machine short headed pending⟩
  obtain short | size | long := Nat.lt_trichotomy b.size 237623
  · exact ⟨_, .ram pixels short headed pending⟩
  · exact ⟨_, .accepted size headed pending⟩
  · exact ⟨_, .trailingData long headed pending⟩

theorem exists_verdict (b : ByteArray) : ∃ r, Verdict b r := by
  obtain short | header := Nat.lt_or_ge b.size 8
  · exact ⟨_, .header short⟩
  by_cases mark : markOf b = [0x53, 0x49, 0x38, 0x30]
  case neg => exact ⟨_, .badMagic header mark⟩
  by_cases version : versionOf b = 1
  case neg => exact ⟨_, .unsupportedVersion header mark version⟩
  obtain short | cpu := Nat.lt_or_ge b.size 26
  · exact ⟨_, .cpu header short ⟨mark, version⟩⟩
  by_cases pending : Chargeable b
  case neg => exact ⟨_, .pendingCycles cpu ⟨mark, version⟩ pending⟩
  exact exists_verdict_of_chargeable cpu ⟨mark, version⟩ pending

/-! ### What the readers find -/

theorem Reader.header_of_headed (h : 8 ≤ b.size) (headed : Headed b) :
    Reader.header ⟨b, 0⟩ = .ok ⟨b, 8⟩ := by
  rw [header_eq h]
  exact (if_neg (not_not_intro headed.mark)).trans (if_neg (not_not_intro headed.version))

theorem Reader.cpu_of_chargeable (h : 26 ≤ b.size) (pending : Chargeable b) :
    Reader.cpu ⟨b, 8⟩ = .ok (cpuAt b, ⟨b, 26⟩) := by
  rw [cpu_eq h]
  exact if_neg (not_not_intro pending)

theorem ofSections_of_headed (h : 8 ≤ b.size) (headed : Headed b) :
    ofSections b = (Reader.cpu ⟨b, 8⟩ >>= fun x => x.2.record x.1) := by
  rw [ofSections, Reader.header_of_headed h headed]
  rfl

theorem ofSections_of_chargeable (h : 26 ≤ b.size) (headed : Headed b) (pending : Chargeable b) :
    ofSections b = Reader.record (cpuAt b) ⟨b, 26⟩ := by
  rw [ofSections_of_headed (by omega) headed, Reader.cpu_of_chargeable h pending]
  rfl

/-- What is found section by section. -/
theorem Verdict.ofSections_eq (v : Verdict b r) : ofSections b = r.mapError .refused := by
  cases v with
  | header h =>
    rw [ofSections, Reader.header, take_of_lt (Nat.zero_le _) h]
    rfl
  | badMagic h mark =>
    rw [ofSections, Reader.header_eq h, if_pos mark]
    rfl
  | unsupportedVersion h mark version =>
    rw [ofSections, Reader.header_eq h, if_neg (not_not_intro mark), if_pos version]
    rfl
  | cpu h h' headed =>
    rw [ofSections_of_headed h headed, Reader.cpu, take_of_lt h h']
    rfl
  | pendingCycles h headed pending =>
    rw [ofSections_of_headed (by omega) headed, Reader.cpu_eq h, if_pos pending]
    rfl
  | machine h h' headed pending =>
    rw [ofSections_of_chargeable h headed pending, Reader.record, take_of_lt h h']
    rfl
  | pixels h h' headed pending =>
    rw [ofSections_of_chargeable (by omega) headed pending, Reader.record, take_of_le h]
    show Reader.take ⟨b, 55⟩ _ _ >>= _ = _
    rw [take_of_lt h h']
    rfl
  | ram h h' headed pending =>
    have machine : Reader.take ⟨b, 26⟩ "machine" 29 = .ok (b.extract 26 55, ⟨b, 55⟩) :=
      take_of_le (by omega)
    rw [ofSections_of_chargeable (by omega) headed pending, Reader.record, machine]
    show Reader.take ⟨b, 55⟩ _ _ >>= _ = _
    rw [take_of_le h]
    show Reader.take ⟨b, 229431⟩ _ _ >>= _ = _
    rw [take_of_lt h h']
    rfl
  | trailingData h headed pending =>
    rw [ofSections_of_chargeable (by omega) headed pending, Reader.record_eq (Nat.le_of_lt h), if_pos h]
    rfl
  | accepted h headed pending =>
    rw [ofSections_of_chargeable (by omega) headed pending, Reader.record_eq (Nat.le_of_eq h.symm),
      if_neg (Nat.not_lt_of_le (Nat.le_of_eq h))]
    rfl

theorem Section.check_of_le {s : Section} (h : s.start + s.length ≤ b.size) : s.check b = .ok () :=
  check_eq_ok_iff.2 h

theorem Section.check_of_lt {s : Section} (h : b.size < s.start + s.length) :
    s.check b = .error (.truncated s.title s.length (b.size - s.start)) :=
  if_pos h

theorem ofBytes_of_headed (h : 8 ≤ b.size) (headed : Headed b) :
    ofBytes b = do
      Section.cpu.check b
      checkPending (pendingOf b)
      Section.machine.check b
      Section.pixels.check b
      Section.ram.check b
      if encodedSize < b.size then throw (.trailingData (b.size - encodedSize))
      return recordAt b := by
  rw [ofBytes, Section.check_of_le (s := .header) h]
  exact (if_neg (not_not_intro headed.mark)).trans (if_neg (not_not_intro headed.version))

theorem ofBytes_of_chargeable (h : 26 ≤ b.size) (headed : Headed b) (pending : Chargeable b) :
    ofBytes b = do
      Section.machine.check b
      Section.pixels.check b
      Section.ram.check b
      if encodedSize < b.size then throw (.trailingData (b.size - encodedSize))
      return recordAt b := by
  have settled : checkPending (pendingOf b) = .ok () := if_pos pending
  rw [ofBytes_of_headed (by omega) headed, Section.check_of_le (s := .cpu) h, settled]
  rfl

/-- What is found by looking up the fields in the whole string. -/
theorem Verdict.ofBytes_eq (v : Verdict b r) : ofBytes b = r := by
  cases v with
  | header h =>
    rw [ofBytes, Section.check_of_lt (s := .header) h]
    rfl
  | badMagic h mark =>
    rw [ofBytes, Section.check_of_le (s := .header) h]
    exact if_pos mark
  | unsupportedVersion h mark version =>
    rw [ofBytes, Section.check_of_le (s := .header) h]
    exact (if_neg (not_not_intro mark)).trans (if_pos version)
  | cpu h h' headed =>
    rw [ofBytes_of_headed h headed, Section.check_of_lt (s := .cpu) h']
    rfl
  | pendingCycles h headed pending =>
    have refused : checkPending (pendingOf b) = .error (.pendingCycles (pendingOf b)) := if_neg pending
    rw [ofBytes_of_headed (by omega) headed, Section.check_of_le (s := .cpu) h, refused]
    rfl
  | machine h h' headed pending =>
    rw [ofBytes_of_chargeable h headed pending, Section.check_of_lt (s := .machine) h']
    rfl
  | pixels h h' headed pending =>
    rw [ofBytes_of_chargeable (by omega) headed pending, Section.check_of_le (s := .machine) h,
      Section.check_of_lt (s := .pixels) h']
    rfl
  | ram h h' headed pending =>
    have machine : Section.machine.check b = .ok () := Section.check_of_le (by show 55 ≤ _; omega)
    rw [ofBytes_of_chargeable (by omega) headed pending, machine,
      Section.check_of_le (s := .pixels) h, Section.check_of_lt (s := .ram) h']
    rfl
  | trailingData h headed pending =>
    have machine : Section.machine.check b = .ok () := Section.check_of_le (by show 55 ≤ _; omega)
    have pixels : Section.pixels.check b = .ok () := Section.check_of_le (by show 229431 ≤ _; omega)
    have ram : Section.ram.check b = .ok () := Section.check_of_le (by show 237623 ≤ _; omega)
    rw [ofBytes_of_chargeable (by omega) headed pending, machine, pixels, ram]
    exact if_pos h
  | accepted h headed pending =>
    exact ofBytes_eq_ok_iff.2 ⟨h, headed.mark, headed.version, pending, rfl⟩

/-! ### One fate for each byte string -/

/-- **What becomes of a byte string that is read.** It has exactly one of ten fates, and that is what
reading gives. Reading section by section gives the same and never goes astray: no byte string makes a
reader look for a byte that is not there. -/
theorem read_by_verdict (b : ByteArray) :
    (∃ r, Verdict b r) ∧ (∀ r, Verdict b r ↔ ofBytes b = r) ∧
      ofSections b = (ofBytes b).mapError .refused := by
  obtain ⟨r, v⟩ := exists_verdict b
  refine ⟨⟨r, v⟩, fun r' => ⟨Verdict.ofBytes_eq, ?_⟩, ?_⟩
  · rintro rfl
    rw [v.ofBytes_eq]
    exact v
  · rw [v.ofBytes_eq]
    exact v.ofSections_eq

end Cabinet.SaveState
