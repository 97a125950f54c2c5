import Cabinet.Proofs.Checksum.Serial
import Cabinet.Proofs.Outcome
import Cabinet.Rom.Region
import Mathlib.Data.List.Find
/-!
# Loading a region

A chip passes if it is in the set with its length and, where that counts, its checksum
(`RomEntry.Passes`), and otherwise is refused for the first of these reasons (`RomEntry.Refused`). A
region is assembled if and only if all its chips pass (`RomRegion.assemble_eq_ok_iff`), and if not, the
reason is that of the first entry whose chip is refused (`RomRegion.assemble_eq_error_iff`). In an
assembled region each byte is that of the last chip over it, and the checksums are those of the chips
(`RomRegion.isLaid_of_assemble`). So to load a region strictly is to load it and then to compare the
checksums (`RomRegion.loadStrict_as_load_listed`).
-/

namespace Cabinet

/-- The chip of the entry lies over this place of the region. -/
def RomEntry.covers (e : RomEntry) (i : Nat) : Bool := e.offset ≤ i && i < e.offset + e.size

theorem RomEntry.covers_iff (e : RomEntry) (i : Nat) :
    e.covers i = true ↔ e.offset ≤ i ∧ i < e.offset + e.size := by
  simp [covers]

/-- The chip that a set has for an entry; an empty one if it has none. -/
def RomSet.chipFor (set : RomSet) (e : RomEntry) : ByteArray := (set.get? e.name).getD .empty

theorem RomSet.chipFor_of_get? {set : RomSet} {e : RomEntry} {chip : ByteArray}
    (h : set.get? e.name = some chip) : set.chipFor e = chip := by
  rw [chipFor, h, Option.getD_some]

/-! ### Which chips pass -/

namespace RomEntry

/-- The chip of the entry is in the set and has the right length and, if it is verified, the right
checksum. -/
def Passes (verify : Bool) (set : RomSet) (e : RomEntry) : Prop :=
  ∃ chip, set.get? e.name = some chip ∧ chip.size = e.size ∧
    (verify = true → Crc32.checksum chip = e.crc)

/-- Why the chip of the entry is refused. -/
inductive Refused (verify : Bool) (set : RomSet) (e : RomEntry) : RomError → Prop where
  /-- It is not in the set. -/
  | missing (h : set.get? e.name = none) : Refused verify set e (.missingFile e.name)
  /-- It is there and has another length. -/
  | size {chip : ByteArray} (h : set.get? e.name = some chip) (hs : chip.size ≠ e.size) :
    Refused verify set e (.sizeMismatch e.name e.size chip.size)
  /-- It is there and has the right length, but is verified and has another checksum. -/
  | checksum {chip : ByteArray} (hv : verify = true) (h : set.get? e.name = some chip)
      (hs : chip.size = e.size) (hc : Crc32.checksum chip ≠ e.crc) :
    Refused verify set e (.checksumMismatch e.name e.crc (Crc32.checksum chip))

variable {verify : Bool} {set other : RomSet} {e : RomEntry} {err : RomError}

theorem passes_or_refused (verify : Bool) (set : RomSet) (e : RomEntry) :
    e.Passes verify set ∨ ∃ err, e.Refused verify set err := by
  cases found : set.get? e.name with
  | none => exact .inr ⟨_, .missing found⟩
  | some chip =>
    by_cases size : chip.size = e.size
    · by_cases sum : verify = true → Crc32.checksum chip = e.crc
      · exact .inl ⟨chip, found, size, sum⟩
      · obtain ⟨verified, other⟩ := Classical.not_imp.1 sum
        exact .inr ⟨_, .checksum verified found size other⟩
    · exact .inr ⟨_, .size found size⟩

theorem passes_iff_of_get? {chip : ByteArray} (found : set.get? e.name = some chip) :
    e.Passes verify set ↔ chip.size = e.size ∧ (verify = true → Crc32.checksum chip = e.crc) := by
  simp [Passes, found]

/-- Verified chips are those that pass without and have the right checksum. -/
theorem passes_true_iff :
    e.Passes true set ↔ e.Passes false set ∧ Crc32.checksum (set.chipFor e) = e.crc := by
  constructor
  · rintro ⟨chip, found, size, sum⟩
    rw [set.chipFor_of_get? found]
    exact ⟨⟨chip, found, size, fun h => nomatch h⟩, sum rfl⟩
  · rintro ⟨⟨chip, found, size, -⟩, sum⟩
    rw [set.chipFor_of_get? found] at sum
    exact ⟨chip, found, size, fun _ => sum⟩

/-- Without verifying, a chip passes if it is there with the right length. -/
theorem passes_false_iff :
    e.Passes false set ↔ ∃ chip, set.get? e.name = some chip ∧ chip.size = e.size := by
  simp [Passes]

/-- A reason that does not come from the checksum stands whether or not that is verified. -/
theorem Refused.verified (h : e.Refused false set err) : e.Refused true set err := by
  cases h with
  | missing h => exact .missing h
  | size h hs => exact .size h hs
  | checksum hv => exact absurd hv Bool.false_ne_true

theorem passes_congr (h : set.get? e.name = other.get? e.name) :
    e.Passes verify set ↔ e.Passes verify other := by
  rw [Passes, h, Passes]

theorem Passes.size_chipFor (h : e.Passes verify set) : (set.chipFor e).size = e.size := by
  obtain ⟨chip, found, size, -⟩ := h
  rw [set.chipFor_of_get? found, size]

end RomEntry

namespace RomRegion

variable {region : RomRegion} {verify : Bool} {set other : RomSet} {r t : RomImage} {e : RomEntry}
  {es : List RomEntry} {err : RomError}

/-! ### One chip -/

/-- The region with the chip of one more entry in its place. -/
def put (set : RomSet) (r : RomImage) (e : RomEntry) : RomImage where
  data := Bytes.overwrite r.data e.offset (set.chipFor e)
  checksums := r.checksums ++ [Crc32.checksum (set.chipFor e)]

/-- **A chip that passes is put in its place.** -/
theorem place_of_passes (h : e.Passes verify set) (r : RomImage) :
    place verify set r e = .ok (put set r e) := by
  obtain ⟨chip, found, size, sum⟩ := h
  have accepted : (verify && Crc32.checksum chip != e.crc) = false := by
    cases verify with
    | false => rfl
    | true => simpa using sum rfl
  simp only [place, RomSet.requireSized, RomSet.require, found, size, bind, Except.bind, pure,
    Except.pure, if_true, accepted, Bool.false_eq_true, if_false, put, set.chipFor_of_get? found]

/-- **A chip that is refused ends the work with its reason.** -/
theorem place_of_refused (h : e.Refused verify set err) (r : RomImage) :
    place verify set r e = .error err := by
  cases h with
  | missing h => simp only [place, RomSet.requireSized, RomSet.require, h, bind, Except.bind]
  | size h hs =>
    simp only [place, RomSet.requireSized, RomSet.require, h, bind, Except.bind, hs, if_false, throw,
      throwThe, MonadExceptOf.throw]
  | checksum hv h hs hc =>
    simp only [place, RomSet.requireSized, RomSet.require, h, hs, hv, bind, Except.bind, pure,
      Except.pure, if_true, Bool.true_and, bne_iff_ne, ne_eq, hc, not_false_eq_true, throw, throwThe,
      MonadExceptOf.throw]

theorem place_congr (h : set.get? e.name = other.get? e.name) :
    place verify set r e = place verify other r e := by
  unfold place RomSet.requireSized RomSet.require
  rw [h]

/-! ### All chips -/

theorem foldlM_place_congr (h : ∀ e ∈ es, set.get? e.name = other.get? e.name) (r : RomImage) :
    es.foldlM (place verify set) r = es.foldlM (place verify other) r := by
  induction es generalizing r with
  | nil => rfl
  | cons e es ih =>
    rw [List.foldlM_cons, List.foldlM_cons, place_congr (h e (List.mem_cons_self ..))]
    exact bind_congr fun r => ih (fun e he => h e (List.mem_cons_of_mem _ he)) r

theorem foldlM_place_of_passes (h : ∀ e ∈ es, e.Passes verify set) (r : RomImage) :
    es.foldlM (place verify set) r = .ok (es.foldl (put set) r) := by
  induction es generalizing r with
  | nil => rfl
  | cons e es ih =>
    rw [List.foldlM_cons, place_of_passes (h e (List.mem_cons_self ..))]
    exact ih (fun e he => h e (List.mem_cons_of_mem _ he)) _

/-- The first entry whose chip is refused gives the reason, whatever comes behind it. -/
def FirstRefused (verify : Bool) (set : RomSet) (es : List RomEntry) (err : RomError) : Prop :=
  ∃ before e after, es = before ++ e :: after ∧ (∀ d ∈ before, d.Passes verify set) ∧
    e.Refused verify set err

theorem foldlM_place_of_firstRefused (h : FirstRefused verify set es err) (r : RomImage) :
    es.foldlM (place verify set) r = .error err := by
  obtain ⟨before, e, after, rfl, pass, refused⟩ := h
  rw [List.foldlM_append, foldlM_place_of_passes pass]
  show (e :: after).foldlM (place verify set) _ = _
  rw [List.foldlM_cons, place_of_refused refused]
  rfl

/-- Either all chips pass, or one is the first that is refused. -/
theorem pass_or_firstRefused (verify : Bool) (set : RomSet) (es : List RomEntry) :
    (∀ e ∈ es, e.Passes verify set) ∨ ∃ err, FirstRefused verify set es err := by
  induction es with
  | nil => exact .inl fun e he => absurd he List.not_mem_nil
  | cons e es ih =>
    obtain pass | ⟨err, refused⟩ := e.passes_or_refused verify set
    · obtain all | ⟨err, before, d, after, rfl, passes, refused⟩ := ih
      · exact .inl (List.forall_mem_cons.2 ⟨pass, all⟩)
      · exact .inr ⟨err, e :: before, d, after, rfl, List.forall_mem_cons.2 ⟨pass, passes⟩, refused⟩
    · exact .inr ⟨err, [], e, es, rfl, fun d hd => absurd hd List.not_mem_nil, refused⟩

/-- The chips of a set, each in its place. -/
def putAll (region : RomRegion) (set : RomSet) : RomImage :=
  region.entries.foldl (put set) { data := Bytes.zeros region.size, checksums := [] }

/-- **A region is assembled if and only if all chips pass.** -/
theorem assemble_eq_ok_iff :
    region.assemble verify set = .ok r ↔
      (∀ e ∈ region.entries, e.Passes verify set) ∧ r = region.putAll set := by
  constructor
  · intro h
    obtain pass | ⟨err, refused⟩ := pass_or_firstRefused verify set region.entries
    · rw [assemble, foldlM_place_of_passes pass] at h
      cases h
      exact ⟨pass, rfl⟩
    · rw [assemble, foldlM_place_of_firstRefused refused] at h
      cases h
  · rintro ⟨pass, rfl⟩
    exact foldlM_place_of_passes pass _

theorem exists_assemble_iff :
    (∃ r, region.assemble verify set = .ok r) ↔ ∀ e ∈ region.entries, e.Passes verify set := by
  simp only [assemble_eq_ok_iff, exists_and_left, exists_eq, and_true]

/-- **If a region is not assembled, the reason is that of the first chip that is refused.** -/
theorem assemble_eq_error_iff :
    region.assemble verify set = .error err ↔ FirstRefused verify set region.entries err := by
  constructor
  · intro h
    obtain pass | ⟨err', refused⟩ := pass_or_firstRefused verify set region.entries
    · rw [assemble, foldlM_place_of_passes pass] at h
      cases h
    · rw [assemble, foldlM_place_of_firstRefused refused] at h
      cases h
      exact refused
  · exact fun h => foldlM_place_of_firstRefused h _

/-- Only the chips of the entries count. -/
theorem assemble_congr (h : ∀ e ∈ region.entries, set.get? e.name = other.get? e.name) :
    region.assemble verify set = region.assemble verify other :=
  foldlM_place_congr h _

/-! ### What is in an assembled region -/

/-- The byte of a region at a place, with these chips in the order of the entries: that of the last chip
over the place, or zero if there is none. -/
def byteOf (region : RomRegion) (chips : List ByteArray) (i : Nat) : UInt8 :=
  ((region.entries.zip chips).reverse.find? (·.1.covers i)).elim 0 fun (e, chip) =>
    Bytes.get chip (i - e.offset)

/-- The region holds these chips, in the order of the entries. -/
structure IsLaid (region : RomRegion) (chips : List ByteArray) (r : RomImage) : Prop where
  /-- It has its full length. -/
  size_eq : r.data.size = region.size
  /-- Each byte is that of the last chip over it, or zero. -/
  get_eq : ∀ i, Bytes.get r.data i = region.byteOf chips i
  /-- The checksums are those of the chips. -/
  checksums_eq : r.checksums = chips.map Crc32.checksum

theorem zip_map_entries (es : List RomEntry) (chip : RomEntry → ByteArray) :
    es.zip (es.map chip) = es.map fun e => (e, chip e) := by
  rw [List.zip_eq_zipWith, List.zipWith_map_right, List.zipWith_self]

theorem byteOf_map (region : RomRegion) (chip : RomEntry → ByteArray) (i : Nat) :
    region.byteOf (region.entries.map chip) i =
      (region.entries.reverse.find? (·.covers i)).elim 0 fun e => Bytes.get (chip e) (i - e.offset) := by
  rw [byteOf, zip_map_entries, ← List.map_reverse, List.find?_map, Option.elim_map]
  rfl

theorem size_foldl_put (es : List RomEntry) (r : RomImage) :
    (es.foldl (put set) r).data.size = r.data.size := by
  induction es generalizing r with
  | nil => rfl
  | cons e es ih => exact (ih _).trans (Bytes.size_overwrite ..)

theorem checksums_foldl_put (es : List RomEntry) (r : RomImage) :
    (es.foldl (put set) r).checksums =
      r.checksums ++ es.map fun e => Crc32.checksum (set.chipFor e) := by
  induction es generalizing r with
  | nil => simp
  | cons e es ih =>
    rw [List.foldl_cons, ih, List.map_cons, ← List.singleton_append, ← List.append_assoc]
    rfl

/-- **Each byte is that of the last chip that lies over it**, or that of the start. -/
theorem get_foldl_put (size : ∀ e ∈ es, (set.chipFor e).size = e.size)
    (fits : ∀ e ∈ es, e.offset + e.size ≤ r.data.size) (i : Nat) :
    Bytes.get (es.foldl (put set) r).data i =
      (es.reverse.find? (·.covers i)).elim (Bytes.get r.data i) fun e =>
        Bytes.get (set.chipFor e) (i - e.offset) := by
  induction es generalizing r with
  | nil => rfl
  | cons e es ih =>
    have chip := size e (List.mem_cons_self ..)
    have room : e.offset + (set.chipFor e).size ≤ r.data.size := by
      rw [chip]
      exact fits e (List.mem_cons_self ..)
    have next : (put set r e).data.size = r.data.size := Bytes.size_overwrite ..
    rw [List.foldl_cons, ih (fun d hd => size d (List.mem_cons_of_mem _ hd))
      (fun d hd => next ▸ fits d (List.mem_cons_of_mem _ hd)), List.reverse_cons, List.find?_append,
      List.find?_singleton, put, Bytes.get_overwrite _ _ _ room, chip]
    simp only [RomEntry.covers_iff]
    cases es.reverse.find? (·.covers i) with
    | some d => rfl
    | none => split <;> rfl

theorem size_of_assemble (h : region.assemble verify set = .ok r) : r.data.size = region.size := by
  obtain ⟨-, rfl⟩ := assemble_eq_ok_iff.1 h
  exact (size_foldl_put ..).trans (Bytes.size_zeros _)

/-- **An assembled region holds its chips.** -/
theorem isLaid_of_assemble (fits : ∀ e ∈ region.entries, e.offset + e.size ≤ region.size)
    (h : region.assemble verify set = .ok r) :
    region.IsLaid (region.entries.map set.chipFor) r := by
  obtain ⟨pass, rfl⟩ := assemble_eq_ok_iff.1 h
  refine
    { size_eq := size_of_assemble h
      get_eq := fun i => ?bytes
      checksums_eq := ?sums }
  case bytes =>
    have room : ∀ e ∈ region.entries, e.offset + e.size ≤ (Bytes.zeros region.size).size := by
      simpa using fits
    rw [putAll, get_foldl_put (fun e he => (pass e he).size_chipFor) room, byteOf_map,
      Bytes.get_zeros]
  case sums => rw [putAll, checksums_foldl_put, List.nil_append, List.map_map, Function.comp_def]

/-- The checksums of the chips are the listed ones, each of its own entry. -/
theorem isListed_putAll_iff :
    (region.putAll set).isListed region = true ↔
      ∀ e ∈ region.entries, Crc32.checksum (set.chipFor e) = e.crc := by
  rw [RomImage.isListed, beq_iff_eq, putAll, checksums_foldl_put, List.nil_append, List.map_inj_left]

/-- A region is loaded strictly if and only if it is loaded and the checksums are the listed ones. -/
theorem loadStrict_eq_ok_iff :
    region.loadStrict set = .ok r ↔ region.load set = .ok r ∧ r.isListed region = true := by
  simp only [loadStrict, load, assemble_eq_ok_iff, RomEntry.passes_true_iff, forall_and]
  constructor
  · rintro ⟨⟨pass, sums⟩, rfl⟩
    exact ⟨⟨pass, rfl⟩, isListed_putAll_iff.2 sums⟩
  · rintro ⟨⟨pass, rfl⟩, listed⟩
    exact ⟨⟨pass, isListed_putAll_iff.1 listed⟩, rfl⟩

/-- Chips with the listed checksums are loaded strictly as they are loaded, or refused alike. -/
theorem loadStrict_eq_load
    (listed : ∀ e ∈ region.entries, Crc32.checksum (set.chipFor e) = e.crc) :
    region.loadStrict set = region.load set := by
  have verified {d : RomEntry} (hd : d ∈ region.entries) (pass : d.Passes false set) :
      d.Passes true set :=
    RomEntry.passes_true_iff.2 ⟨pass, listed d hd⟩
  cases h : region.load set with
  | ok r =>
    obtain ⟨pass, rfl⟩ := assemble_eq_ok_iff.1 h
    exact assemble_eq_ok_iff.2 ⟨fun e he => verified he (pass e he), rfl⟩
  | error err =>
    obtain ⟨before, e, after, split, pass, refused⟩ := assemble_eq_error_iff.1 h
    refine assemble_eq_error_iff.2 ⟨before, e, after, split, fun d hd => ?_, refused.verified⟩
    exact verified (split ▸ List.mem_append_left _ hd) (pass d hd)

/-- **To load strictly is to load and then to compare the checksums.** A region is loaded if and only if
each of its chips is in the set and has its length. Each byte is then that of the last chip over it, or
zero, and the checksums are those of the chips in the order of the entries. It is loaded strictly if and
only if it is loaded and the checksums are the listed ones. Otherwise the reason is that of the first
entry whose chip is refused. -/
theorem loadStrict_as_load_listed
    (fits : ∀ e ∈ region.entries, e.offset + e.size ≤ region.size) (set : RomSet) :
    ((∃ r, region.load set = .ok r) ↔
        ∀ e ∈ region.entries, ∃ chip, set.get? e.name = some chip ∧ chip.size = e.size) ∧
      (∀ r, region.load set = .ok r → region.IsLaid (region.entries.map set.chipFor) r) ∧
      (∀ r, region.loadStrict set = .ok r ↔ region.load set = .ok r ∧ r.isListed region = true) ∧
      (∀ err, region.load set = .error err ↔ FirstRefused false set region.entries err) ∧
      ∀ err, region.loadStrict set = .error err ↔ FirstRefused true set region.entries err := by
  refine ⟨?loads, fun r => isLaid_of_assemble fits, fun r => loadStrict_eq_ok_iff,
    fun err => assemble_eq_error_iff, fun err => assemble_eq_error_iff⟩
  case loads => simp only [load, exists_assemble_iff, RomEntry.passes_false_iff]

/-- A region in which the second chip lies over the end of the first, with a gap behind both. -/
def overlapping : RomRegion where
  size := 8
  entries := [
    { name := "a.bin", size := 4, offset := 0, crc := 0xB63CFBCD },
    { name := "b.bin", size := 4, offset := 2, crc := 0xDEADBEEF }]

/-- Its two chips. Only the first one has the listed checksum. -/
def twoChips : RomSet :=
  .ofList [("b.bin", Bytes.ofList [5, 6, 7, 8]), ("a.bin", Bytes.ofList [1, 2, 3, 4])]

theorem firstRefused_twoChips :
    FirstRefused true twoChips overlapping.entries
      (.checksumMismatch "b.bin" 0xDEADBEEF (Crc32.checksum (Bytes.ofList [5, 6, 7, 8]))) := by
  have listed : Crc32.checksum (Bytes.ofList [1, 2, 3, 4]) = 0xB63CFBCD := by
    rw [Crc32.checksum, Crc32.update_eq_foldl_feed]
    decide +kernel
  have other : Crc32.checksum (Bytes.ofList [5, 6, 7, 8]) ≠ 0xDEADBEEF := by
    rw [Crc32.checksum, Crc32.update_eq_foldl_feed]
    decide +kernel
  refine ⟨[_], _, [], rfl, fun d hd => ?_, .checksum rfl rfl rfl other⟩
  rw [List.mem_singleton.1 hd]
  exact ⟨_, rfl, rfl, fun _ => listed⟩

theorem overlapping_loaded_not_strictly :
    (∀ e ∈ overlapping.entries, e.offset + e.size ≤ overlapping.size) ∧
      (∃ r, overlapping.load twoChips = .ok r ∧ Bytes.Has r.data 0 [1, 2, 5, 6, 7, 8, 0, 0]) ∧
      overlapping.loadStrict twoChips =
        .error (.checksumMismatch "b.bin" 0xDEADBEEF (Crc32.checksum (Bytes.ofList [5, 6, 7, 8]))) := by
  have fits : ∀ e ∈ overlapping.entries, e.offset + e.size ≤ overlapping.size := by decide
  obtain ⟨loads, laid, -, -, refused⟩ := loadStrict_as_load_listed fits twoChips
  have present : ∀ e ∈ overlapping.entries,
      ∃ chip, twoChips.get? e.name = some chip ∧ chip.size = e.size :=
    List.forall_mem_cons.2 ⟨⟨_, rfl, rfl⟩, List.forall_mem_singleton.2 ⟨_, rfl, rfl⟩⟩
  obtain ⟨r, loaded⟩ := loads.2 present
  refine ⟨fits, ⟨r, loaded, ?_⟩, (refused _).2 firstRefused_twoChips⟩
  have get := (laid r loaded).get_eq
  exact ⟨get 0, get 1, get 2, get 3, get 4, get 5, get 6, get 7, trivial⟩

end RomRegion

end Cabinet
