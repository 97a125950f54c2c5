import Cabinet.Proofs.Video.Picture
import Mathlib.Data.List.GetD
import Mathlib.Data.Nat.Bitwise
/-!
# Taking the picture byte by byte

The picture is taken over the pixels that are there: the memory that can be written is looked up by its
address, the bytes of video memory are cut out of it, and one byte after the other is spread over the next
eight pixels, as long as there are bytes and eight pixels are left (`decodeOver`). Without that memory
nothing is done, and out of one that is too short nothing can be cut (`Machine.refresh?`).

Each pixel is then that of its bit, whatever it was before (`getD_decodeOver`). A machine that is reached
has the memory, and there are eight pixels for each byte of it, so the picture taken in this way is the
one that video memory holds (`Machine.Reachable.refresh?_eq`).
-/

namespace Cabinet

/-! ### One byte after the other -/

/-- The pixel for a bit of a byte. -/
def Pixel.ofBit (byte : UInt8) (bit : Nat) : UInt32 :=
  if byte &&& (1 <<< UInt8.ofNat bit) != 0 then lit else dark

/-- Bytes spread over pixels, each over the next eight, until there are no more bytes or fewer than eight
pixels. -/
def decodeOver : List UInt8 → List UInt32 → List UInt32
  | b :: bs, ps =>
    if 8 ≤ ps.length then (ps.take 8).mapIdx (fun bit _ => Pixel.ofBit b bit) ++ decodeOver bs (ps.drop 8)
    else ps
  | [], ps => ps

theorem length_decodeOver (bs : List UInt8) (ps : List UInt32) :
    (decodeOver bs ps).length = ps.length := by
  fun_induction decodeOver bs ps with
  | case1 b bs ps room ih =>
    rw [List.length_append, List.length_mapIdx, List.length_take, ih, List.length_drop]
    omega
  | case2 b bs ps short => rfl
  | case3 ps => rfl

/-- **A pixel is that of its bit**, if there is a byte for it and all eight pixels of the byte are there,
and else what it was. -/
theorem getD_decodeOver (bs : List UInt8) (ps : List UInt32) (i : Nat) :
    (decodeOver bs ps).getD i 0 =
      if i / 8 < bs.length ∧ i / 8 < ps.length / 8 then Pixel.ofBit (bs.getD (i / 8) 0) (i % 8)
      else ps.getD i 0 := by
  fun_induction decodeOver bs ps generalizing i with
  | case1 b bs ps room ih =>
    have chunk : ((ps.take 8).mapIdx fun bit _ => Pixel.ofBit b bit).length = 8 := by
      rw [List.length_mapIdx, List.length_take]
      omega
    by_cases first : i < 8
    · have byte : i / 8 = 0 := by omega
      have bit : i % 8 = i := by omega
      have inside : i < ps.length := by omega
      rw [List.getD_append _ _ _ _ (by omega), byte, bit, if_pos (by simp; omega)]
      simp [List.getD_eq_getElem?_getD, first, inside]
    · have byte : i / 8 = (i - 8) / 8 + 1 := by omega
      have bit : (i - 8) % 8 = i % 8 := by omega
      have place : 8 + (i - 8) = i := by omega
      have behind : (ps.drop 8).getD (i - 8) 0 = ps.getD i 0 := by
        rw [List.getD_eq_getElem?_getD, List.getElem?_drop, place, List.getD_eq_getElem?_getD]
      have inside : ((i - 8) / 8 < bs.length ∧ (i - 8) / 8 < (ps.drop 8).length / 8) ↔
          (i - 8) / 8 + 1 < (b :: bs).length ∧ (i - 8) / 8 + 1 < ps.length / 8 := by
        rw [List.length_drop, List.length_cons]
        omega
      rw [List.getD_append_right _ _ _ _ (by omega), chunk, ih, behind, byte, bit]
      simp only [inside, List.getD_cons_succ]
  | case2 b bs ps short =>
    rw [if_neg]
    omega
  | case3 ps => simp

/-! ### Over a pixel buffer -/

/-- The pixel for a bit is lit if the bit is set. -/
theorem Pixel.ofBit_eq (byte : UInt8) {bit : Nat} (h : bit < 8) :
    ofBit byte bit = if byte.toNat.testBit bit then lit else dark := by
  have mask : ((1 : UInt8) <<< UInt8.ofNat bit).toNat = 2 ^ bit := by
    have small : 2 ^ bit < 256 := Nat.pow_lt_pow_right (by decide) h
    rw [UInt8.toNat_shiftLeft, UInt8.toNat_ofNat', Nat.mod_mod_of_dvd _ (by decide), Nat.mod_eq_of_lt h]
    show 1 <<< bit % 256 = 2 ^ bit
    rw [Nat.one_shiftLeft, Nat.mod_eq_of_lt small]
  have set : byte &&& (1 <<< UInt8.ofNat bit) != 0 ↔ byte.toNat.testBit bit = true := by
    rw [bne_iff_ne, ne_eq, ← UInt8.toNat_inj, UInt8.toNat_and, mask, Nat.and_two_pow]
    cases byte.toNat.testBit bit <;> simp
  simp only [ofBit, set]

namespace PixelBuffer

theorem size_decodeOver (px : PixelBuffer) (bytes : List UInt8) :
    (Cabinet.decodeOver bytes px.toList).toArray.size = pixelCount := by
  rw [List.size_toArray, length_decodeOver, Vector.length_toList]

/-- The pixels when bytes have been spread over them. -/
def decodeOver (px : PixelBuffer) (bytes : List UInt8) : PixelBuffer :=
  ⟨(Cabinet.decodeOver bytes px.toList).toArray, px.size_decodeOver bytes⟩

theorem getElem_decodeOver (px : PixelBuffer) {bytes : List UInt8} (all : bytes.length = 0x1C00)
    (i : Nat) (hi : i < pixelCount) :
    (px.decodeOver bytes)[i] =
      if (bytes.getD (i / 8) 0).toNat.testBit (i % 8) then Pixel.lit else Pixel.dark := by
  have count : pixelCount = 57344 := rfl
  have pixels : px.toList.length = pixelCount := Vector.length_toList
  have length := length_decodeOver bytes px.toList
  have pixel : (px.decodeOver bytes)[i] = (Cabinet.decodeOver bytes px.toList).getD i 0 := by
    rw [List.getD_eq_getElem _ _ (by omega)]
    rfl
  rw [pixel, getD_decodeOver, if_pos (by omega), Pixel.ofBit_eq _ (Nat.mod_lt i (by decide))]

end PixelBuffer

/-! ### On a machine -/

/-- Bytes cut out of a bank, if all of them are there. -/
def Bank.slice? (b : Bank) (start count : Nat) : Option (List UInt8) :=
  if start + count ≤ b.size then some ((b.contents.data.toList.drop start).take count) else none

namespace Machine

variable {m : Machine} {rom : Block} {checksums : List UInt32}

/-- Takes the picture over the pixels that are there, if there is a memory to take it from. If the memory
is too short there is no result. -/
def refresh? (m : Machine) : Option Machine :=
  match m.board.memory.bank? Board.ramBase with
  | none => some m
  | some bank =>
    (bank.slice? (videoBase - Board.ramBase).toNat 0x1C00).map fun bytes =>
      { m with pixels := m.pixels.decodeOver bytes }

/-- The bytes that are cut out of the memory of a machine are those of video memory. -/
theorem Sound.exists_slice (h : m.Sound rom checksums) :
    ∃ bank bytes, m.board.memory.bank? Board.ramBase = some bank ∧
      bank.slice? (videoBase - Board.ramBase).toNat 0x1C00 = some bytes ∧ bytes.length = 0x1C00 ∧
      ∀ k < 0x1C00, bytes.getD k 0 = m.read (videoBase + UInt16.ofNat k) := by
  obtain ⟨ram, memory⟩ := h.memory
  have size : ram.val.data.toList.length = 0x2000 := ram.property
  have distance : (videoBase - Board.ramBase).toNat = 0x400 := rfl
  refine ⟨.work ram, (ram.val.data.toList.drop 0x400).take 0x1C00, ?_, ?_, ?_, ?_⟩
  · rw [board, memory, AddressSpace.bank?_ofBlocks]
  · rw [Bank.slice?, distance, if_pos]
    · rfl
    · show 0x400 + 0x1C00 ≤ ram.val.size
      rw [ram.property]
  · rw [List.length_take, List.length_drop, size]
    rfl
  · intro k hk
    have address : (videoBase + UInt16.ofNat k).toNat = 0x2400 + k := by
      show (0x2400 + k % 65536) % 65536 = _
      omega
    have offset : 0x2400 + k - 0x2000 = 0x400 + k := by omega
    rw [read, board, memory, AddressSpace.read_ofBlocks, address, if_neg (by omega), offset,
      List.getD_eq_getElem?_getD, List.getElem?_take_of_lt hk, List.getElem?_drop,
      ← List.getD_eq_getElem?_getD, Bytes.getD_toList]

/-- **The picture that is taken byte by byte is the one that video memory holds**, whatever the pixels
were before. -/
theorem Sound.refresh?_eq (h : m.Sound rom checksums) : m.refresh? = some m.updatePixels := by
  obtain ⟨bank, bytes, found, cut, all, read⟩ := h.exists_slice
  have pixels : m.pixels.decodeOver bytes = .decode m.read := by
    refine Vector.ext fun i hi => ?_
    have byte : i / 8 < 0x1C00 := by
      have count : i < 57344 := hi
      omega
    rw [PixelBuffer.getElem_decodeOver _ all, PixelBuffer.getElem_decode, read _ byte]
  rw [refresh?, found, updatePixels_eq, pixels_updatePixels, ← pixels]
  simp only [cut, Option.map_some]

theorem Reachable.refresh?_eq {chips : Chips} (h : m.Reachable chips) :
    m.refresh? = some m.updatePixels := by
  obtain ⟨rom, checksums, sound⟩ := exists_sound chips
  exact (sound h).refresh?_eq

end Machine

end Cabinet
