import Cabinet.Proofs.Machine.Regular
/-!
# The ways to build a machine

A machine is built from four chips by themselves, from a ROM set that holds them, or from such a set with
their checksums compared. All ways assemble one program and then do the same with it. So they build the
same machine or fail for the same reason (`Machine.constructions_agree`), and to build strictly is to
build a machine whose program is known (`Machine.ofRomSetStrict_eq_ok_iff_isSome`).
-/

namespace Cabinet.Machine

variable {chips : Chips} {set : RomSet} {settings : Settings} {program : RomImage} {m : Machine}

/-! ### From a program -/

theorem ofChips_eq_ok_iff :
    ofChips chips settings = .ok m ↔
      ∃ program, programRom.loadImages chips.toList = .ok program ∧
        ofProgram program settings = .ok m := by
  simp only [ofChips, bind_eq_ok_iff, mapError_eq_ok_iff]

theorem ofRomSet_eq_ok_iff :
    ofRomSet set settings = .ok m ↔
      ∃ program, programRom.load set = .ok program ∧ ofProgram program settings = .ok m := by
  simp only [ofRomSet, bind_eq_ok_iff, mapError_eq_ok_iff]

/-- The machine keeps the checksums of its program, and has the map that goes with them. -/
theorem checksums_of_ofProgram (h : ofProgram program settings = .ok m) :
    m.checksums = program.checksums ∧ m.map = AddressMap.ofChecksums? program.checksums := by
  obtain ⟨memory, -, h⟩ := bind_eq_ok_iff.1 h
  cases h
  exact ⟨rfl, rfl⟩

/-- A program that is loaded can always be put into a machine. -/
theorem exists_ofProgram (h : programRom.load set = .ok program) (settings : Settings) :
    ∃ m, ofProgram program settings = .ok m :=
  ⟨_, ofProgram_eq program (RomRegion.size_of_assemble h) settings⟩

theorem exists_ofRomSet_iff :
    (∃ m, ofRomSet set settings = .ok m) ↔ ∃ program, programRom.load set = .ok program := by
  constructor
  · rintro ⟨m, built⟩
    obtain ⟨program, loaded, -⟩ := ofRomSet_eq_ok_iff.1 built
    exact ⟨program, loaded⟩
  · rintro ⟨program, loaded⟩
    obtain ⟨m, built⟩ := exists_ofProgram loaded settings
    exact ⟨m, ofRomSet_eq_ok_iff.2 ⟨program, loaded, built⟩⟩

theorem ofRomSetStrict_eq_ok_iff :
    ofRomSetStrict set settings = .ok m ↔
      ∃ program, programRom.loadStrict set = .ok program ∧ ofProgram program settings = .ok m := by
  simp only [ofRomSetStrict, bind_eq_ok_iff, mapError_eq_ok_iff]

/-- **To build strictly is to build a machine that has an address map.** -/
theorem ofRomSetStrict_eq_ok_iff_isSome :
    ofRomSetStrict set settings = .ok m ↔ ofRomSet set settings = .ok m ∧ m.map.isSome = true := by
  have known {program : RomImage} (built : ofProgram program settings = .ok m) :
      program.isListed programRom = true ↔ m.map.isSome = true := by
    rw [(checksums_of_ofProgram built).2, AddressMap.ofChecksums?_eq, RomImage.isListed, beq_iff_eq,
      Option.isSome_ite]
  simp only [ofRomSetStrict_eq_ok_iff, ofRomSet_eq_ok_iff, RomRegion.loadStrict_eq_ok_iff]
  constructor
  · rintro ⟨program, ⟨loaded, listed⟩, built⟩
    exact ⟨⟨program, loaded, built⟩, (known built).1 listed⟩
  · rintro ⟨⟨program, loaded, built⟩, some⟩
    exact ⟨program, ⟨loaded, (known built).2 some⟩, built⟩

/-! ### From chips -/

theorem ofRomSet_of_holds (h : set.Holds chips) (settings : Settings) :
    ofRomSet set settings = ofChips chips settings := by
  rw [ofRomSet, ofChips, loadImages_eq_load_of_holds h]

/-- Chips with the listed checksums are accepted strictly too, or refused alike. -/
theorem ofRomSetStrict_of_holds (h : set.Holds chips)
    (listed : chips.toList.map Crc32.checksum = programRom.entries.map (·.crc))
    (settings : Settings) : ofRomSetStrict set settings = ofChips chips settings := by
  rw [← map_chipFor_of_holds h, List.map_map] at listed
  have same : programRom.loadStrict set = programRom.load set :=
    RomRegion.loadStrict_eq_load (List.map_inj_left.1 listed)
  rw [ofRomSetStrict, same, ← ofRomSet, ofRomSet_of_holds h]

/-- **Chips give a machine if and only if they have the right length.** -/
theorem exists_ofChips_iff (chips : Chips) (settings : Settings) :
    (∃ m, ofChips chips settings = .ok m) ↔ ∀ chip ∈ chips.toList, chip.size = 0x800 := by
  constructor
  · rintro ⟨m, built⟩
    obtain ⟨program, loaded, -⟩ := ofChips_eq_ok_iff.1 built
    exact (exists_program_iff chips).1 ⟨program, loaded⟩
  · exact fun sizes => exists_ofChips sizes settings

/-- Above its program a machine begins with nothing. -/
theorem Built.read_of_le (h : m.Built chips) {a : UInt16} (above : 0x2000 ≤ a.toNat) : m.read a = 0 := by
  obtain ⟨program, settings, hp, rfl⟩ := h.exists_fresh
  show (AddressSpace.ofBlocks _ Block.zeros).read a = 0
  rw [AddressSpace.read_ofBlocks, if_neg (Nat.not_lt.2 above)]
  exact Bytes.get_zeros ..

/-- What is in a new machine. -/
structure IsNew (chips : Chips) (m : Machine) : Prop where
  /-- The program begins with a jump. -/
  read_zero : m.read 0x0000 = 0xC3
  /-- All else of the program is that of the chips, 2 KB of each. -/
  read_program : ∀ a : UInt16, a ≠ 0x0000 → a.toNat < 0x2000 → m.read a = chips.byteAt a.toNat
  /-- The memory above the program is empty. -/
  read_work : ∀ a : UInt16, 0x2000 ≤ a.toNat → a.toNat < 0x4000 → m.read a = 0
  /-- The checksums are those of the chips, before the jump is put in. -/
  checksums_eq : m.checksums = chips.toList.map Crc32.checksum
  /-- The program is known if the chips have the listed checksums. -/
  map_eq_iff : m.map = some .midway ↔
    chips.toList.map Crc32.checksum = programRom.entries.map (·.crc)

/-- **A machine that is built from chips is new.** -/
theorem isNew_of_ofChips (h : ofChips chips settings = .ok m) : m.IsNew chips := by
  have built : m.Built chips := .ofChips settings h
  have regular := (Reachable.built built).regular
  obtain ⟨program, loaded, made⟩ := ofChips_eq_ok_iff.1 h
  obtain ⟨sums, map⟩ := checksums_of_ofProgram made
  rw [(isLaid_loadImages loaded).checksums_eq] at sums map
  refine
    { read_zero := regular.read_zero
      read_program := regular.read_program
      read_work := fun a above _ => built.read_of_le above
      checksums_eq := sums
      map_eq_iff := ?known }
  case known =>
    rw [map, AddressMap.ofChecksums?_eq, Option.ite_none_right_eq_some]
    exact and_iff_left rfl

/-- **All ways to build a machine agree.** An archive that has the chips, in any order, in any
directories and among any other files, gives a ROM set that holds them. A set that holds them gives what
they give by themselves, and strictly as well if they have the listed checksums. They give a machine if
and only if they have the right length, and what is in it is told by the chips. From any set a machine is
built strictly if and only if it is built from it and has an address map. -/
theorem constructions_agree (chips : Chips) (settings : Settings) :
    (∀ members, chips.Archived members → (RomSet.ofMembers members).Holds chips) ∧
      (∀ set : RomSet, set.Holds chips →
        ofRomSet set settings = ofChips chips settings ∧
          (chips.toList.map Crc32.checksum = programRom.entries.map (·.crc) →
            ofRomSetStrict set settings = ofChips chips settings)) ∧
      ((∃ m, ofChips chips settings = .ok m) ↔ ∀ chip ∈ chips.toList, chip.size = 0x800) ∧
      (∀ m, ofChips chips settings = .ok m → m.IsNew chips) ∧
      ∀ (set : RomSet) (m : Machine), ofRomSetStrict set settings = .ok m ↔
        ofRomSet set settings = .ok m ∧ m.map.isSome = true := by
  refine ⟨fun members archived => archived.holds, fun set held => ?_, exists_ofChips_iff chips settings,
    fun m => isNew_of_ofChips, fun set m => ofRomSetStrict_eq_ok_iff_isSome⟩
  exact ⟨ofRomSet_of_holds held settings, fun listed => ofRomSetStrict_of_holds held listed settings⟩

/-- An archive with the listed chips, the first two in a directory, in the opposite order and behind
another file. -/
def archive : List (String × ByteArray) := [
  ("readme.txt", .empty),
  ("invaders.e", listedChips.e),
  ("invaders.f", listedChips.f),
  ("roms/invaders.g", listedChips.g),
  ("roms/invaders.h", listedChips.h)]

theorem archived_archive : listedChips.Archived archive := by
  refine ⟨fun e => if e.offset < 0x1000 then "roms/" else "", [("readme.txt", .empty)], fun e _ => ?_,
    List.forall_mem_singleton.2 (by decide), (List.reverse_perm archive).symm⟩
  by_cases low : e.offset < 0x1000
  · exact .inr ⟨"roms", if_pos low⟩
  · exact .inl (if_neg low)

theorem archive_constructed :
    listedChips.Archived archive ∧
      listedChips.toList.map Crc32.checksum = programRom.entries.map (·.crc) ∧
      ∃ m, ofChips listedChips .standard = .ok m ∧
        ofRomSet (.ofMembers archive) .standard = .ok m ∧
        ofRomSetStrict (.ofMembers archive) .standard = .ok m ∧
        m.map = some .midway ∧ m.read 0x0000 = 0xC3 ∧ m.read 0x1FFF = 0xC0 := by
  obtain ⟨holds, agree, builds, new, -⟩ := constructions_agree listedChips .standard
  obtain ⟨m, built⟩ := builds.2 size_of_mem_listedChips
  obtain ⟨same, strictly⟩ := agree _ (holds archive archived_archive)
  have isNew := new m built
  refine ⟨archived_archive, checksums_listedChips, m, built, same.trans built,
    (strictly checksums_listedChips).trans built, isNew.map_eq_iff.2 checksums_listedChips,
    isNew.read_zero, ?_⟩
  rw [isNew.read_program 0x1FFF (by decide) (by decide)]
  decide +kernel

end Cabinet.Machine
