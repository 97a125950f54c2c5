import Cabinet.Proofs.Checksum.Burst
import Cabinet.Proofs.Machine.Construction
import Mathlib.Logic.Function.Basic
/-!
# Damaged chips

A chip in which a burst of bits is wrong has another checksum than it should have. So if a set that is
loaded strictly has such a chip put in the place of the right one, it is refused for that chip
(`RomRegion.loadStrict_of_burst`), and a machine that is built from it all the same is not taken for one
whose program is known (`Machine.map_eq_none_of_burst`).
-/

namespace Cabinet

variable {set other : RomSet} {region : RomRegion} {e : RomEntry} {chip bad : ByteArray} {name : String}

/-- Another set has a damaged image under one name, where this one has what it should be, and is the
same under all other names. -/
structure RomSet.Damaged (set other : RomSet) (name : String) (chip bad : ByteArray) : Prop where
  /-- What the image should be. -/
  get?_eq : set.get? name = some chip
  /-- Only the image of that name is changed. -/
  get?_other : other.get? = Function.update set.get? name (some bad)

namespace RomSet.Damaged

theorem get?_damaged (h : set.Damaged other name chip bad) : other.get? name = some bad := by
  rw [h.get?_other, Function.update_self]

theorem get?_of_ne (h : set.Damaged other name chip bad) {unharmed : String} (ne : unharmed ≠ name) :
    set.get? unharmed = other.get? unharmed := by
  rw [h.get?_other, Function.update_of_ne ne]

theorem of_insert (h : set.get? name = some chip) : set.Damaged (set.insert name bad) name chip bad := by
  refine ⟨h, funext fun unharmed => ?_⟩
  rw [RomSet.get?_insert, Function.update_apply]

end RomSet.Damaged

/-! ### Loading -/

/-- The entries up to the first one of a name. -/
theorem RomRegion.exists_first (he : e ∈ region.entries) :
    ∃ before first after, region.entries = before ++ first :: after ∧ first.name = e.name ∧
      ∀ d ∈ before, d.name ≠ e.name := by
  have some : (region.entries.find? (·.name == e.name)).isSome = true :=
    List.find?_isSome.2 ⟨e, he, beq_self_eq_true _⟩
  obtain ⟨first, found⟩ := Option.isSome_iff_exists.1 some
  obtain ⟨name, before, after, split, others⟩ := List.find?_eq_some_iff_append.1 found
  exact ⟨before, first, after, split, by simpa using name, fun d hd => by simpa using others d hd⟩

/-- **A burst in a chip of a region that is loaded strictly makes it refused**, for that chip and with the
checksum that it now has. -/
theorem RomRegion.loadStrict_of_burst (burst : Crc32.Burst chip bad)
    (damaged : set.Damaged other e.name chip bad) (he : e ∈ region.entries)
    (loads : ∃ r, region.loadStrict set = .ok r) :
    region.loadStrict other = .error (.checksumMismatch e.name e.crc (Crc32.checksum bad)) := by
  have pass := exists_assemble_iff.1 loads
  have right {d : RomEntry} (hd : d ∈ region.entries) (name : d.name = e.name) :
      chip.size = d.size ∧ Crc32.checksum chip = d.crc := by
    have own : set.get? d.name = some chip := name ▸ damaged.get?_eq
    obtain ⟨size, sum⟩ := (RomEntry.passes_iff_of_get? own).1 (pass d hd)
    exact ⟨size, sum rfl⟩
  -- The name may stand in the region more than once: the first entry that has it is refused.
  obtain ⟨before, first, after, split, name, others⟩ := region.exists_first he
  have hf : first ∈ region.entries := by
    rw [split]
    exact List.mem_append_right _ (List.mem_cons_self ..)
  obtain ⟨size, sum⟩ := right hf name
  have refused : first.Refused true other
      (.checksumMismatch first.name first.crc (Crc32.checksum bad)) := by
    refine .checksum rfl (name ▸ damaged.get?_damaged) (burst.size_eq ▸ size) fun same => ?_
    exact Crc32.checksum_ne_of_burst burst (sum.trans same.symm)
  have crc : first.crc = e.crc := sum.symm.trans (right he rfl).2
  rw [name, crc] at refused
  refine assemble_eq_error_iff.2 ⟨before, first, after, split, fun d hd => ?_, refused⟩
  refine (RomEntry.passes_congr (damaged.get?_of_ne (others d hd))).1 (pass d ?_)
  exact split ▸ List.mem_append_left _ hd

/-- Without verifying, a damaged chip of the same length is loaded as well. -/
theorem RomRegion.exists_load_of_damaged (size : chip.size = bad.size)
    (damaged : set.Damaged other name chip bad) (loads : ∃ r, region.load set = .ok r) :
    ∃ r, region.load other = .ok r := by
  refine exists_assemble_iff.2 fun d hd => ?_
  have pass := exists_assemble_iff.1 loads d hd
  by_cases same : d.name = name
  · have was : set.get? d.name = some chip := same ▸ damaged.get?_eq
    have now : other.get? d.name = some bad := same ▸ damaged.get?_damaged
    rw [RomEntry.passes_iff_of_get? was, size] at pass
    exact (RomEntry.passes_iff_of_get? now).2 ⟨pass.1, fun verified => nomatch verified⟩
  · exact (RomEntry.passes_congr (damaged.get?_of_ne same)).1 pass

namespace Machine

variable {settings : Settings} {m : Machine}

/-! ### Building -/

/-- **A burst in a chip of a known program makes it an unknown one.** A machine is still built. -/
theorem map_eq_none_of_burst (burst : Crc32.Burst chip bad)
    (damaged : set.Damaged other e.name chip bad) (he : e ∈ programRom.entries)
    (built : ofRomSet set settings = .ok m) (known : m.map.isSome = true) :
    ∃ n, ofRomSet other settings = .ok n ∧ n.map = none := by
  have loads := exists_ofRomSet_iff.1 ⟨m, built⟩
  obtain ⟨n, rebuilt⟩ := exists_ofRomSet_iff.2
    (RomRegion.exists_load_of_damaged burst.size_eq damaged loads)
  refine ⟨n, rebuilt, Option.not_isSome_iff_eq_none.1 fun taken => ?_⟩
  -- A machine that is taken for a known one is built strictly too, but the damaged set is refused.
  obtain ⟨program, strictly, -⟩ :=
    ofRomSetStrict_eq_ok_iff.1 (ofRomSetStrict_eq_ok_iff_isSome.2 ⟨built, known⟩)
  obtain ⟨program', strictly', -⟩ :=
    ofRomSetStrict_eq_ok_iff.1 (ofRomSetStrict_eq_ok_iff_isSome.2 ⟨rebuilt, taken⟩)
  rw [RomRegion.loadStrict_of_burst burst damaged he ⟨program, strictly⟩] at strictly'
  cases strictly'

/-- **A burst of errors is always caught.** Byte strings of one length that differ, and only within
thirty-two consecutive bits, have different checksums. So a set with such an error in a chip of a region,
that is loaded strictly without the error, is refused for that chip; and a machine whose program is known
is, with such an error in a chip of it, still built but not known. -/
theorem burst_always_caught (burst : Crc32.Burst chip bad) :
    Crc32.checksum chip ≠ Crc32.checksum bad ∧
      ∀ (set other : RomSet) (e : RomEntry), set.Damaged other e.name chip bad →
        (∀ region : RomRegion, e ∈ region.entries → (∃ r, region.loadStrict set = .ok r) →
          region.loadStrict other =
            .error (.checksumMismatch e.name e.crc (Crc32.checksum bad))) ∧
        ∀ (settings : Settings) (m : Machine), e ∈ programRom.entries →
          ofRomSet set settings = .ok m → m.map.isSome = true →
            ∃ n, ofRomSet other settings = .ok n ∧ n.map = none := by
  refine ⟨Crc32.checksum_ne_of_burst burst, fun set other e damaged => ⟨fun region he loads => ?_,
    fun settings m he built known => ?_⟩⟩
  · exact RomRegion.loadStrict_of_burst burst damaged he loads
  · exact map_eq_none_of_burst burst damaged he built known

/-- The first of the listed chips with its first byte lost. -/
def lostByte : ByteArray :=
  listedChips.h.set 0 0 (by rw [size_of_mem_listedChips _ (List.mem_cons_self ..)]; decide)

theorem lostByte_caught :
    Crc32.Burst listedChips.h lostByte ∧
      (∃ r, programRom.loadStrict listedChips.toSet = .ok r) ∧
      programRom.loadStrict (listedChips.toSet.insert "invaders.h" lostByte) =
        .error (.checksumMismatch "invaders.h" 0x734F5AD8 (Crc32.checksum lostByte)) ∧
      ∃ m n, ofRomSet listedChips.toSet .standard = .ok m ∧ m.map = some .midway ∧
        ofRomSet (listedChips.toSet.insert "invaders.h" lostByte) .standard = .ok n ∧ n.map = none := by
  have burst : Crc32.Burst listedChips.h lostByte := Crc32.burst_set _ (by decide +kernel)
  obtain ⟨-, caught⟩ := burst_always_caught burst
  obtain ⟨m, built⟩ := exists_ofChips size_of_mem_listedChips .standard
  have held := listedChips.holds_toSet
  have known := (isNew_of_ofChips built).map_eq_iff.2 checksums_listedChips
  rw [← ofRomSet_of_holds held] at built
  have strictly := ofRomSetStrict_eq_ok_iff_isSome.2 ⟨built, by rw [known]; rfl⟩
  obtain ⟨program, loaded, -⟩ := ofRomSetStrict_eq_ok_iff.1 strictly
  have listed : RomEntry.mk "invaders.h" 0x800 0x0000 0x734F5AD8 ∈ programRom.entries :=
    List.mem_cons_self ..
  have damaged : listedChips.toSet.Damaged (listedChips.toSet.insert "invaders.h" lostByte) "invaders.h"
      listedChips.h lostByte := .of_insert rfl
  obtain ⟨refused, unknown⟩ := caught _ _ (.mk "invaders.h" 0x800 0x0000 0x734F5AD8) damaged
  obtain ⟨n, rebuilt, none⟩ := unknown _ m listed built (by rw [known]; rfl)
  exact ⟨burst, ⟨program, loaded⟩, refused _ listed ⟨program, loaded⟩, m, n, built, known, rebuilt, none⟩

end Machine

end Cabinet
