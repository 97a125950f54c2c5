import Cabinet.Proofs.Machine.Reachable
import Cabinet.Video.Upright
/-!
# The picture of video memory

A pixel is one bit of video memory: the picture shows each bit once, in the order of the addresses and
the lowest bit of a byte first (`PixelBuffer.getElem_decode`), so nothing of video memory is lost
(`PixelBuffer.decode_eq_decode_iff`). Turning it upright moves pixels and changes none
(`get_uprightRgb`). Both together say which bit of memory is seen where (`Machine.picture_of_memory`).
-/

namespace Cabinet

/-! ### Pixels and bits -/

theorem shiftRight_and_one_iff (byte : UInt8) {k : Nat} (hk : k < 8) :
    (byte >>> UInt8.ofNat k) &&& 1 = 1 ↔ byte.toNat.testBit k = true := by
  have place : (UInt8.ofNat k).toNat % 8 = k := by
    rw [UInt8.toNat_ofNat']
    omega
  rw [← UInt8.toNat_inj, UInt8.toNat_and, UInt8.toNat_shiftRight, place, Nat.testBit_eq_decide_div_mod_eq,
    Nat.shiftRight_eq_div_pow, decide_eq_true_eq]
  show byte.toNat / 2 ^ k &&& 1 = 1 ↔ _
  rw [Nat.and_one_is_mod]

namespace Pixel

theorem channel_lit (c : Nat) : channel lit c = 255 := by
  match c with
  | 0 | 1 | _ + 2 => rfl

theorem channel_dark (c : Nat) : channel dark c = 0 := by
  match c with
  | 0 | 1 | _ + 2 => rfl

theorem lit_ne_dark : lit ≠ dark := by decide

end Pixel

namespace PixelBuffer

/-- A pixel is lit if its bit of video memory is set. -/
theorem getElem_decode (byteAt : UInt16 → UInt8) (i : Nat) (hi : i < pixelCount) :
    (decode byteAt)[i] =
      if (byteAt (videoBase + UInt16.ofNat (i / 8))).toNat.testBit (i % 8) then Pixel.lit
      else Pixel.dark := by
  have bit := shiftRight_and_one_iff (byteAt (videoBase + UInt16.ofNat (i / 8)))
    (Nat.mod_lt i (by decide : 0 < 8))
  simp only [decode, Vector.getElem_ofFn, bit]

/-- **The picture tells all bytes of video memory**, and depends on no others. -/
theorem decode_eq_decode_iff (f g : UInt16 → UInt8) :
    decode f = decode g ↔
      ∀ k : Fin 0x1C00, f (videoBase + UInt16.ofNat k) = g (videoBase + UInt16.ofNat k) := by
  constructor
  · intro same k
    refine Bytes.byte_eq_of_testBit fun j hj => ?_
    -- Bit `j` of byte `k` is pixel `8 * k + j`.
    have hi : 8 * k.val + j < pixelCount := by
      show 8 * k.val + j < 57344
      omega
    have pixel : (decode f)[8 * k.val + j] = (decode g)[8 * k.val + j] := by rw [same]
    rw [getElem_decode, getElem_decode, show (8 * k.val + j) / 8 = k by omega,
      show (8 * k.val + j) % 8 = j by omega] at pixel
    revert pixel
    cases (f (videoBase + UInt16.ofNat k)).toNat.testBit j <;>
      cases (g (videoBase + UInt16.ofNat k)).toNat.testBit j <;>
      simp [Pixel.lit_ne_dark, Pixel.lit_ne_dark.symm]
  · intro same
    refine Vector.ext fun i hi => ?_
    have byte : i / 8 < 0x1C00 := by
      have count : i < 57344 := hi
      omega
    rw [getElem_decode, getElem_decode, same ⟨i / 8, byte⟩]

end PixelBuffer

/-! ### The upright picture -/

/-- The colour values in the upright picture are those of the pixels of the raster. -/
theorem get_uprightRgb {width height row column channel : Nat} (px : Array UInt32) (hr : row < width)
    (hq : column < height) (hc : channel < 3) :
    Bytes.get (uprightRgb width height px) (3 * (row * height + column) + channel) =
      Pixel.channel (px.getD (uprightSource width row column) 0) channel := by
  have inside : row * height + column < width * height := by
    have rows : (row + 1) * height ≤ width * height := Nat.mul_le_mul_right height hr
    rw [Nat.succ_mul] at rows
    omega
  have triple : (3 * (row * height + column) + channel) / 3 = row * height + column := by omega
  have value : (3 * (row * height + column) + channel) % 3 = channel := by omega
  have line : (row * height + column) / height = row := by
    rw [Nat.mul_comm, Nat.mul_add_div (by omega), Nat.div_eq_of_lt hq, Nat.add_zero]
  have place : (row * height + column) % height = column := by
    rw [Nat.mul_comm, Nat.mul_add_mod, Nat.mod_eq_of_lt hq]
  have size : (uprightRgb width height px).size = 3 * (width * height) := Bytes.size_ofFn ..
  rw [Bytes.get_of_lt (by rw [size]; omega)]
  simp only [uprightRgb, Bytes.getElem_ofFn, triple, value, line, place]

namespace Machine

theorem pixels_updatePixels (m : Machine) : m.updatePixels.pixels = .decode m.read := by
  unfold updatePixels
  rfl

theorem updatePixels_eq (m : Machine) : m.updatePixels = { m with pixels := m.updatePixels.pixels } := by
  unfold updatePixels
  rfl

theorem read_updatePixels (m : Machine) : m.updatePixels.read = m.read := by
  funext a
  rw [read, board, circuit_updatePixels, read, board]

theorem eq_of_pixels {m : Machine} {px : PixelBuffer} (h : px = m.pixels) :
    { m with pixels := px } = m := by
  subst h
  rfl

theorem updatePixels_updatePixels (m : Machine) : m.updatePixels.updatePixels = m.updatePixels := by
  have again : m.updatePixels.updatePixels.pixels = m.updatePixels.pixels := by
    rw [pixels_updatePixels, read_updatePixels, pixels_updatePixels]
  exact m.updatePixels.updatePixels_eq.trans (eq_of_pixels again)

/-- What is seen in the upright picture of a machine whose picture has just been taken. -/
theorem get_upright_updatePixels (m : Machine) {row column channel : Nat} (hr : row < screenWidth)
    (hq : column < screenHeight) (hc : channel < 3) :
    Bytes.get (uprightRgb screenWidth screenHeight m.updatePixels.pixels.toArray)
        (3 * (row * screenHeight + column) + channel) =
      if (m.read (videoBase + UInt16.ofNat (32 * column + (255 - row) / 8))).toNat.testBit
        ((255 - row) % 8) then 255 else 0 := by
  have width : screenWidth = 256 := rfl
  have height : screenHeight = 224 := rfl
  have source : uprightSource screenWidth row column = 256 * column + (255 - row) := by
    rw [uprightSource, width]
    omega
  have inside : 256 * column + (255 - row) < pixelCount := by
    show _ < 57344
    omega
  have byte : (256 * column + (255 - row)) / 8 = 32 * column + (255 - row) / 8 := by omega
  have bit : (256 * column + (255 - row)) % 8 = (255 - row) % 8 := by omega
  rw [get_uprightRgb _ hr hq hc, source, Array.getD_eq_getD_getElem?,
    Array.getElem?_eq_getElem (by rwa [Vector.size_toArray]), Option.getD_some, Vector.getElem_toArray,
    pixels_updatePixels, PixelBuffer.getElem_decode _ _ inside, byte, bit]
  split
  · exact Pixel.channel_lit channel
  · exact Pixel.channel_dark channel

/-- **From video memory to the upright picture.** Whatever memory and the pixel buffer hold, taking the
picture sets each pixel by its bit of video memory and changes nothing else, so taking it again changes
nothing at all, and the pictures of two machines are the same exactly if their video memory is. In the
upright picture of 224 columns and 256 rows all three colour values at a place are 255 if a certain bit
is set, and 0 if it is not: that of the column's line in memory, counted from the lowest row up. -/
theorem picture_of_memory (m : Machine) :
    pixelCount = 57344 ∧
    (∀ i : Fin pixelCount, m.updatePixels.pixels[i] =
      if (m.read (0x2400 + UInt16.ofNat (i / 8))).toNat.testBit (i % 8) then 0xFFFFFFFF
      else 0xFF000000) ∧
    m.updatePixels = { m with pixels := m.updatePixels.pixels } ∧
    m.updatePixels.updatePixels = m.updatePixels ∧
    (∀ n : Machine, m.updatePixels.pixels = n.updatePixels.pixels ↔
      ∀ k : Fin 0x1C00, m.read (0x2400 + UInt16.ofNat k) = n.read (0x2400 + UInt16.ofNat k)) ∧
    (uprightRgb 256 224 m.updatePixels.pixels.toArray).size = 3 * (256 * 224) ∧
    ∀ (row : Fin 256) (column : Fin 224) (channel : Fin 3),
      Bytes.get (uprightRgb 256 224 m.updatePixels.pixels.toArray)
          (3 * (row * 224 + column) + channel) =
        if (m.read (0x2400 + UInt16.ofNat (32 * column + (255 - row) / 8))).toNat.testBit
          ((255 - row) % 8) then 255 else 0 := by
  refine ⟨rfl, ?_, m.updatePixels_eq, m.updatePixels_updatePixels, ?_, Bytes.size_ofFn .., ?_⟩
  · intro i
    rw [pixels_updatePixels]
    exact PixelBuffer.getElem_decode m.read i i.isLt
  · intro n
    rw [pixels_updatePixels, pixels_updatePixels]
    exact PixelBuffer.decode_eq_decode_iff m.read n.read
  · intro row column channel
    exact m.get_upright_updatePixels row.isLt column.isLt channel.isLt

end Machine

end Cabinet
