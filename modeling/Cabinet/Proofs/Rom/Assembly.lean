import Cabinet.Proofs.Rom.Images
import Cabinet.Rom.Program
/-!
# Assembling the program

The four chips of the program have names of their own and do not overlap. So a ROM set that holds four
chips gives the program that the chips give by themselves (`loadImages_eq_load_of_holds`), four chips
give one if and only if they have the right length (`exists_program_iff`), and it is the four chips one
behind the other (`get_loadImages`). An archive gives such a set if it has the chips, in whatever order
and directories (`Chips.Archived.holds`).
-/

namespace Cabinet

/-- The chips stand in the set under the names of the program. -/
def RomSet.Holds (set : RomSet) (chips : Chips) : Prop :=
  programRom.entries.map (fun e => set.get? e.name) = chips.toList.map some

/-- The set of the four chips alone. -/
def Chips.toSet (chips : Chips) : RomSet :=
  .ofList ((programRom.entries.map (·.name)).zip chips.toList)

theorem Chips.holds_toSet (chips : Chips) : chips.toSet.Holds chips := by
  rfl

/-- The four chips by themselves give what a set gives that holds them. -/
theorem loadImages_eq_load_of_holds {set : RomSet} {chips : Chips} (h : set.Holds chips) :
    programRom.loadImages chips.toList = programRom.load set := by
  refine (if_pos rfl).trans (RomRegion.assemble_congr fun e he => ?_)
  have same := (chips.holds_toSet).trans h.symm
  exact List.map_inj_left.1 same e he

/-- What a set that holds the chips has for the entries is the chips. -/
theorem map_chipFor_of_holds {set : RomSet} {chips : Chips} (h : set.Holds chips) :
    programRom.entries.map set.chipFor = chips.toList := by
  have found := congrArg (List.map (Option.getD · ByteArray.empty)) h
  rw [List.map_map, List.map_map] at found
  exact found.trans (List.map_id _)

theorem size_of_loadImages {chips : Chips} {r : RomImage}
    (h : programRom.loadImages chips.toList = .ok r) : r.data.size = 0x2000 :=
  RomRegion.size_of_assemble ((if_pos rfl).symm.trans h)

/-- The byte that the chips have for an address of the program: each chip has 2 KB of it. -/
def Chips.byteAt (chips : Chips) (i : Nat) : UInt8 :=
  Bytes.get (chips.toList.getD (i / 0x800) .empty) (i % 0x800)

/-- The chips of the program do not overlap: each place has one chip over it. -/
theorem find?_covers_programRom {i : Nat} (hi : i < 0x2000) :
    programRom.entries.reverse.find? (·.covers i) = programRom.entries[i / 0x800]? := by
  have own : ∀ e ∈ programRom.entries.reverse,
      e.covers i = decide (e.offset = 0x800 * (i / 0x800)) := by
    intro e he
    simp only [programRom, List.reverse_cons, List.reverse_nil, List.nil_append, List.cons_append,
      List.mem_cons, List.not_mem_nil, or_false] at he
    obtain rfl | rfl | rfl | rfl := he
    all_goals
      rw [Bool.eq_iff_iff, RomEntry.covers_iff, decide_eq_true_iff]
      dsimp only
      omega
  have quarter : i / 0x800 < 4 := by omega
  rw [List.find?_congr own]
  generalize i / 0x800 = k at quarter
  revert k
  decide

theorem fits_programRom : ∀ e ∈ programRom.entries, e.offset + e.size ≤ programRom.size := by
  decide

/-- The four names are different, so each chip reaches its own entry. -/
theorem routed_programRom (chips : Chips) : programRom.routed chips.toList = chips.toList := rfl

/-- In the program the chips lie one behind the other. -/
theorem byteOf_programRom (chips : Chips) {i : Nat} (hi : i < 0x2000) :
    programRom.byteOf chips.toList i = chips.byteAt i := by
  have own : chips.toList = programRom.entries.map chips.toSet.chipFor := rfl
  have quarter : i / 0x800 = 0 ∨ i / 0x800 = 1 ∨ i / 0x800 = 2 ∨ i / 0x800 = 3 := by omega
  rw [own, RomRegion.byteOf_map, find?_covers_programRom hi, Chips.byteAt]
  obtain q | q | q | q := quarter
  · rw [q, show i % 0x800 = i - 0x0000 by omega]
    rfl
  · rw [q, show i % 0x800 = i - 0x0800 by omega]
    rfl
  · rw [q, show i % 0x800 = i - 0x1000 by omega]
    rfl
  · rw [q, show i % 0x800 = i - 0x1800 by omega]
    rfl

/-- The program holds the four chips. -/
theorem isLaid_loadImages {chips : Chips} {r : RomImage}
    (h : programRom.loadImages chips.toList = .ok r) : programRom.IsLaid chips.toList r := by
  have loaded : programRom.load chips.toSet = .ok r := (if_pos rfl).symm.trans h
  exact RomRegion.isLaid_of_assemble fits_programRom loaded

/-- **The program is the four chips one behind the other.** -/
theorem get_loadImages {chips : Chips} {r : RomImage}
    (h : programRom.loadImages chips.toList = .ok r) {i : Nat} (hi : i < 0x2000) :
    Bytes.get r.data i = chips.byteAt i := by
  rw [(isLaid_loadImages h).get_eq, byteOf_programRom chips hi]

/-- **Four chips give a program if and only if they have the right length.** -/
theorem exists_program_iff (chips : Chips) :
    (∃ r, programRom.loadImages chips.toList = .ok r) ↔ ∀ chip ∈ chips.toList, chip.size = 0x800 := by
  rw [RomRegion.exists_loadImages_iff rfl, routed_programRom]
  simp [RomRegion.Fit, programRom, Chips.toList]

/-! ### Chips in an archive -/

/-- The chips are in an archive: its members are, in any order, each chip under its name in some directory
or in none, and others that have none of these names in whatever directory. -/
def Chips.Archived (chips : Chips) (members : List (String × ByteArray)) : Prop :=
  ∃ (directory : RomEntry → String) (others : List (String × ByteArray)),
    (∀ e ∈ programRom.entries, directory e = "" ∨ ∃ parent, directory e = parent ++ "/") ∧
    (∀ other ∈ others, RomSet.bareName other.1 ∉ programRom.entries.map (·.name)) ∧
    members.Perm ((programRom.entries.zip chips.toList).map
      (fun x => (directory x.1 ++ x.1.name, x.2)) ++ others)

theorem RomSet.bareName_append {directory name : String}
    (h : directory = "" ∨ ∃ parent, directory = parent ++ "/")
    (plain : name.toList.all (· != '/') = true) : bareName (directory ++ name) = name := by
  have inside : ∀ c ∈ name.toList.reverse, (c != '/') = true := fun c hc =>
    List.all_eq_true.1 plain c (List.mem_reverse.1 hc)
  have stop : directory.toList.reverse.takeWhile (· != '/') = [] := by
    obtain rfl | ⟨parent, rfl⟩ := h
    · rfl
    · simp
  rw [bareName, String.toList_append, List.reverse_append, List.takeWhile_append_of_pos inside, stop,
    List.append_nil, List.reverse_reverse, String.ofList_toList]

theorem RomSet.holds_iff {set : RomSet} {chips : Chips} :
    set.Holds chips ↔ ∀ x ∈ programRom.entries.zip chips.toList, set.get? x.1.name = some x.2 := by
  simp [Holds, programRom, Chips.toList]

/-- **The set of an archive that has the chips holds them.** -/
theorem Chips.Archived.holds {chips : Chips} {members : List (String × ByteArray)}
    (h : chips.Archived members) : (RomSet.ofMembers members).Holds chips := by
  obtain ⟨directory, others, directories, apart, perm⟩ := h
  have plain : ∀ e ∈ programRom.entries, e.name.toList.all (· != '/') = true := by decide
  have bare {x : RomEntry × ByteArray} (hx : x ∈ programRom.entries.zip chips.toList) :
      RomSet.bareName (directory x.1 ++ x.1.name) = x.1.name :=
    have he := List.of_mem_zip hx
    RomSet.bareName_append (directories _ he.1) (plain _ he.1)
  have unambiguous := (RomRegion.routed_eq_iff rfl).1 (routed_programRom chips)
  refine RomSet.holds_iff.2 fun x hx => ?_
  rw [RomSet.ofMembers, RomSet.get?_ofList]
  refine Keyed.lookup_eq_some_of_mem ?there ?only
  case there =>
    rw [List.mem_reverse, List.mem_map]
    refine ⟨(directory x.1 ++ x.1.name, x.2), ?_, congrArg (·, x.2) (bare hx)⟩
    exact perm.mem_iff.2 (List.mem_append_left _ (List.mem_map.2 ⟨x, hx, rfl⟩))
  case only =>
    intro y hy name
    obtain ⟨⟨path, image⟩, hm, rfl⟩ := List.mem_map.1 (List.mem_reverse.1 hy)
    replace name : RomSet.bareName path = x.1.name := name
    obtain hm | hm := List.mem_append.1 (perm.mem_iff.1 hm)
    · obtain ⟨z, hz, same⟩ := List.mem_map.1 hm
      cases same
      rw [bare hz] at name
      exact unambiguous z hz x hx name
    · have listed : x.1.name ∈ programRom.entries.map (·.name) :=
        List.mem_map_of_mem (List.of_mem_zip hx).1
      exact absurd (name ▸ listed) (apart _ hm)

/-! ### Chips with the listed checksums -/

/-- A byte string of 2 KB: bytes that take all bits out of the register, zeros, which leave it so, and
what is given. -/
def padded (tail : List UInt8) : ByteArray :=
  Bytes.ofList ([0xFF, 0xFF, 0xFF, 0xFF] ++ List.replicate 0x7F8 0 ++ tail)

theorem size_padded (tail : List UInt8) : (padded tail).size = 0x7FC + tail.length := by
  rw [padded, Bytes.size_ofList, List.length_append, List.length_append, List.length_replicate]
  rfl

/-- Only what is given counts for its checksum. -/
theorem checksum_padded (tail : List UInt8) :
    Crc32.checksum (padded tail) = ~~~(tail.flatMap Crc32.bitsOfByte).foldl Crc32.feed 0 := by
  have emptied : (([0xFF, 0xFF, 0xFF, 0xFF] : List UInt8).flatMap Crc32.bitsOfByte).foldl Crc32.feed
      0xFFFFFFFF = 0 := by decide +kernel
  have stays (n : Nat) : ((List.replicate n (0 : UInt8)).flatMap Crc32.bitsOfByte).foldl Crc32.feed 0 =
      0 := by
    induction n with
    | zero => rfl
    | succ n ih =>
      rw [List.replicate_succ, List.flatMap_cons, List.foldl_append]
      exact ih
  rw [Crc32.checksum, Crc32.update_eq_foldl_feed, Crc32.bitsOf, padded, Bytes.ofList,
    List.toList_toArray, List.flatMap_append, List.flatMap_append, List.foldl_append,
    List.foldl_append, emptied, stays]

/-- Four chips that have the listed checksums. -/
def listedChips : Chips where
  h := padded [0xA8, 0x76, 0xF5, 0x65]
  g := padded [0x0D, 0xE5, 0x64, 0x32]
  f := padded [0x36, 0x23, 0xDF, 0x14]
  e := padded [0xF7, 0x2F, 0x3F, 0xC0]

theorem checksums_listedChips :
    listedChips.toList.map Crc32.checksum = programRom.entries.map (·.crc) := by
  simp only [listedChips, Chips.toList, List.map_cons, List.map_nil, checksum_padded]
  decide +kernel

theorem size_of_mem_listedChips : ∀ chip ∈ listedChips.toList, chip.size = 0x800 := by
  simp [listedChips, Chips.toList, size_padded]

end Cabinet
