import Cabinet.Proofs.Rom.Loading
/-!
# Loading images in the order of the entries

Images that are given in the order of the entries go into a ROM set under the names of the entries, and
come out of it by these names. So an entry does not get the image of its own position but the last one
that is given for an entry of its name (`RomRegion.routed`). As many images as entries are loaded as if
they were given in this way, and it makes no difference if and only if no name is given two images
(`RomRegion.loadImages_as_routed`). A region that has one chip in two places may so be loaded with one
image in both, though two are given (`RomRegion.twice_holds_later`).
-/

namespace Cabinet.RomRegion

variable {region : RomRegion} {images : List ByteArray} {e : RomEntry} {r : RomImage}

/-! ### From positions to names and back -/

/-- The image that reaches an entry: the last one that is given for an entry of its name. -/
def imageFor? (region : RomRegion) (images : List ByteArray) (e : RomEntry) : Option ByteArray :=
  ((region.entries.zip images).reverse.find? (·.1.name == e.name)).map (·.2)

/-- The images as they reach the entries. -/
def routed (region : RomRegion) (images : List ByteArray) : List ByteArray :=
  region.entries.map fun e => (region.imageFor? images e).getD .empty

/-- No name is given two images. -/
def Unambiguous (region : RomRegion) (images : List ByteArray) : Prop :=
  ∀ x ∈ region.entries.zip images, ∀ y ∈ region.entries.zip images, x.1.name = y.1.name → x.2 = y.2

/-- Each image has the length of its entry, and there are as many of them as entries. -/
def Fit (region : RomRegion) (images : List ByteArray) : Prop :=
  images.map (·.size) = region.entries.map (·.size)

/-- The set in which the images have the names of the entries. -/
def named (region : RomRegion) (images : List ByteArray) : RomSet :=
  .ofList ((region.entries.map (·.name)).zip images)

theorem lookup_map_name (items : List (RomEntry × ByteArray)) (name : String) :
    (items.map fun x => (x.1.name, x.2)).lookup name =
      (items.find? (·.1.name == name)).map (·.2) := by
  induction items with
  | nil => rfl
  | cons x items ih =>
    rw [List.map_cons, Keyed.lookup_cons_eq_ite, ih]
    by_cases h : name = x.1.name
    · rw [if_pos h, List.find?_cons_of_pos (by simp [h]), Option.map_some]
    · rw [if_neg h, List.find?_cons_of_neg (by simp [Ne.symm h])]

/-- **The name of an entry finds the last image that is given for it.** -/
theorem get?_named (region : RomRegion) (images : List ByteArray) (e : RomEntry) :
    (region.named images).get? e.name = region.imageFor? images e := by
  have zipped : (region.entries.map (·.name)).zip images =
      (region.entries.zip images).map fun x => (x.1.name, x.2) := List.zip_map_left
  rw [named, RomSet.get?_ofList, zipped, ← List.map_reverse, lookup_map_name, imageFor?]

theorem map_chipFor_named (region : RomRegion) (images : List ByteArray) :
    region.entries.map (region.named images).chipFor = region.routed images := by
  refine List.map_congr_left fun e _ => ?_
  rw [RomSet.chipFor, get?_named]

theorem getElem_mem_zip {k : Nat} (hk : k < region.entries.length) (hk' : k < images.length) :
    (region.entries[k], images[k]) ∈ region.entries.zip images :=
  List.mem_iff_getElem.2 ⟨k, by simp [hk, hk'], List.getElem_zip⟩

/-- If there are as many images as entries, each entry gets one that is given for an entry of its name. -/
theorem exists_imageFor? (count : images.length = region.entries.length) (he : e ∈ region.entries) :
    ∃ x ∈ region.entries.zip images, x.1.name = e.name ∧ region.imageFor? images e = some x.2 := by
  obtain ⟨k, hk, rfl⟩ := List.getElem_of_mem he
  have own := getElem_mem_zip hk (count ▸ hk)
  have some : ((region.entries.zip images).reverse.find?
      (·.1.name == region.entries[k].name)).isSome = true :=
    List.find?_isSome.2 ⟨_, List.mem_reverse.2 own, beq_self_eq_true _⟩
  obtain ⟨x, found⟩ := Option.isSome_iff_exists.1 some
  refine ⟨x, List.mem_reverse.1 (List.mem_of_find?_eq_some found), ?_, ?_⟩
  · simpa using List.find?_some found
  · rw [imageFor?, found, Option.map_some]

/-- **Positions are kept if and only if no name is given two images.** -/
theorem routed_eq_iff (count : images.length = region.entries.length) :
    region.routed images = images ↔ region.Unambiguous images := by
  constructor
  · intro same x hx y hy name
    have byName {x : RomEntry × ByteArray} (hx : x ∈ region.entries.zip images) :
        x.2 = (region.imageFor? images x.1).getD .empty := by
      rw [← same, routed, zip_map_entries] at hx
      obtain ⟨e, -, rfl⟩ := List.mem_map.1 hx
      rfl
    rw [byName hx, byName hy, imageFor?, imageFor?, name]
  · intro unambiguous
    refine List.ext_getElem (by simp [routed, count]) fun k hk hk' => ?_
    have he : k < region.entries.length := count ▸ hk'
    obtain ⟨x, hx, name, found⟩ := exists_imageFor? count (List.getElem_mem he)
    simp only [routed, List.getElem_map, found, Option.getD_some]
    exact unambiguous x hx _ (getElem_mem_zip he hk') name

/-! ### What is loaded -/

theorem loadImages_of_length (count : images.length = region.entries.length) :
    region.loadImages images = region.load (region.named images) :=
  if_pos count

theorem exists_loadImages_iff (count : images.length = region.entries.length) :
    (∃ r, region.loadImages images = .ok r) ↔ region.Fit (region.routed images) := by
  rw [loadImages_of_length count, Fit, ← map_chipFor_named, List.map_map, List.map_inj_left]
  simp only [load, exists_assemble_iff]
  refine forall₂_congr fun e he => ?_
  obtain ⟨x, -, -, found⟩ := exists_imageFor? count he
  rw [RomEntry.passes_false_iff, get?_named, found]
  simp [RomSet.chipFor, get?_named, found]

/-- **Images are loaded as they reach the entries.** Too few images, or too many, are refused with the
name of the first entry that has none, or that of none. As many as entries are loaded if and only if each
entry is reached by an image of its length, and the region then holds the images that have reached the
entries. These are the images as given if and only if no name is given two. -/
theorem loadImages_as_routed (fits : ∀ e ∈ region.entries, e.offset + e.size ≤ region.size)
    (images : List ByteArray) :
    (∀ e, region.entries[images.length]? = some e →
        region.loadImages images = .error (.missingFile e.name)) ∧
      (region.entries.length < images.length →
        region.loadImages images = .error (.missingFile "<extra image>")) ∧
      (images.length = region.entries.length →
        ((∃ r, region.loadImages images = .ok r) ↔ region.Fit (region.routed images)) ∧
          (∀ r, region.loadImages images = .ok r → region.IsLaid (region.routed images) r) ∧
          (region.routed images = images ↔ region.Unambiguous images)) := by
  refine ⟨fun e he => ?few, fun many => ?many, fun count => ⟨exists_loadImages_iff count, ?_,
    routed_eq_iff count⟩⟩
  case few =>
    have lt := (List.getElem?_eq_some_iff.1 he).1
    rw [loadImages, if_neg (Nat.ne_of_lt lt), he]
    rfl
  case many =>
    rw [loadImages, if_neg (Nat.ne_of_gt many), List.getElem?_eq_none (Nat.le_of_lt many)]
    rfl
  · intro r loaded
    rw [loadImages_of_length count] at loaded
    rw [← map_chipFor_named]
    exact isLaid_of_assemble fits loaded

/-! ### One chip in two places -/

/-- A region that has one chip in two places. -/
def twice : RomRegion where
  size := 2
  entries := [
    { name := "a.bin", size := 1, offset := 0, crc := 0xA505DF1B },
    { name := "a.bin", size := 1, offset := 1, crc := 0x3C0C8EA1 }]

/-- Two images for it, of one byte each. -/
def twoImages : List ByteArray := [Bytes.ofList [1], Bytes.ofList [2]]

theorem fits_twice : ∀ e ∈ twice.entries, e.offset + e.size ≤ twice.size := by decide

theorem routed_twoImages : twice.routed twoImages = [Bytes.ofList [2], Bytes.ofList [2]] := rfl

/-- **Images that fit are not always held in their positions**: of two images for two places of one name
the later one is held in both. -/
theorem twice_holds_later :
    (∀ e ∈ twice.entries, e.offset + e.size ≤ twice.size) ∧ twice.Fit twoImages ∧
      ∃ r, twice.loadImages twoImages = .ok r ∧ Bytes.get r.data 0 = 2 ∧ ¬twice.IsLaid twoImages r := by
  have count : twoImages.length = twice.entries.length := rfl
  obtain ⟨r, loaded⟩ := (exists_loadImages_iff count).2 rfl
  have first : Bytes.get r.data 0 = 2 := by
    rw [loadImages_of_length count] at loaded
    have laid := isLaid_of_assemble fits_twice loaded
    rw [map_chipFor_named, routed_twoImages] at laid
    exact laid.get_eq 0
  refine ⟨fits_twice, rfl, r, loaded, first, fun laid => ?_⟩
  have positional : Bytes.get r.data 0 = 1 := laid.get_eq 0
  rw [first] at positional
  exact absurd positional (by decide)

theorem twice_loaded_as_routed :
    (∀ e ∈ twice.entries, e.offset + e.size ≤ twice.size) ∧
      twice.loadImages [Bytes.ofList [1]] = .error (.missingFile "a.bin") ∧
      twice.loadImages (Bytes.ofList [0] :: twoImages) = .error (.missingFile "<extra image>") ∧
      ¬twice.Unambiguous twoImages ∧
      ∃ r, twice.loadImages twoImages = .ok r ∧ twice.IsLaid [Bytes.ofList [2], Bytes.ofList [2]] r := by
  obtain ⟨few, -, -⟩ := loadImages_as_routed fits_twice [Bytes.ofList [1]]
  obtain ⟨-, many, -⟩ := loadImages_as_routed fits_twice (Bytes.ofList [0] :: twoImages)
  obtain ⟨-, -, right⟩ := loadImages_as_routed fits_twice twoImages
  obtain ⟨loads, laid, kept⟩ := right rfl
  obtain ⟨r, loaded⟩ := loads.2 rfl
  refine ⟨fits_twice, few _ rfl, many (by decide), fun unambiguous => ?_, r, loaded, laid r loaded⟩
  have same : Bytes.ofList [2] = Bytes.ofList [1] :=
    List.head_eq_of_cons_eq (kept.2 unambiguous)
  exact absurd (congrArg (Bytes.get · 0) same) (by decide)

end Cabinet.RomRegion
