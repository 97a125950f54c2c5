import Cabinet.Proofs.Video.Picture
import Mathlib.Logic.Equiv.Fin.Basic
/-!
# The quarter turn

Turning a raster upright is painting its pixels one by one into a buffer: row after row of the upright
picture, each from left to right (`paintUpright`). Every pixel that is painted is looked up in the
raster, and each of its three values is put into the buffer, where a place that is not there would end
the painting. After `n` pixels the first `n` triples of the buffer are those of the upright picture and
the others are untouched (`paintPixel_painted`, one pixel; `paintRow_painted`, one row), so a raster that
has all its pixels is painted to the end, and what is painted is the upright picture
(`paintUpright_eq`).

The pixels come to places that are all different and fill the picture (`bijective_landing`). If the
upright picture is taken for a raster of opaque pixels, it can be turned again; two turns are half a
turn (`getElem?_turned_turned`), and four give back the colours of the raster. All of this is
`upright_is_quarter_turn`, for every width and every height.
-/

namespace Cabinet

/-! ### Painting -/

/-- A difference that must not fall below zero. -/
def minus? (a b : Nat) : Option Nat := if b ≤ a then some (a - b) else none

/-- Puts a byte into its place, if there is such a place. -/
def putByte? (i : Nat) (v : UInt8) (buffer : ByteArray) : Option ByteArray :=
  if h : i < buffer.size then some (buffer.set i v h) else none

section Painting

variable (width height : Nat) (px : Array UInt32)

/-- Paints the pixel at a row and a column of the upright picture. -/
def paintPixel (row column : Nat) (buffer : ByteArray) : Option ByteArray := do
  let x ← minus? (← minus? width 1) row
  let pixel ← px[column * width + x]?
  let place := (row * height + column) * 3
  let buffer ← putByte? place (Pixel.channel pixel 0) buffer
  let buffer ← putByte? (place + 1) (Pixel.channel pixel 1) buffer
  putByte? (place + 2) (Pixel.channel pixel 2) buffer

/-- Paints a row, from left to right. -/
def paintRow (row : Nat) (buffer : ByteArray) : Option ByteArray :=
  (List.range height).foldlM (fun buffer column => paintPixel width height px row column buffer) buffer

/-- Paints the upright picture into a new buffer, row by row. -/
def paintUpright : Option ByteArray :=
  (List.range width).foldlM (fun buffer row => paintRow width height px row buffer)
    (Bytes.zeros (width * height * 3))

/-- The upright picture of which the first `n` pixels are painted. -/
def painted (n : Nat) : ByteArray :=
  Bytes.ofFn (3 * (width * height)) fun k =>
    if k.val / 3 < n then Bytes.get (uprightRgb width height px) k else 0

end Painting

/-- A loop goes through the states `s`, if each of its steps leads from one to the next. -/
theorem foldlM_range_eq_some {α : Type} {f : α → Nat → Option α} {s : Nat → α} {n : Nat}
    (step : ∀ i < n, f (s i) i = some (s (i + 1))) : (List.range n).foldlM f (s 0) = some (s n) := by
  induction n with
  | zero => rfl
  | succ n ih =>
    have before := ih fun i hi => step i (Nat.lt_succ_of_lt hi)
    rw [List.range_succ, List.foldlM_append, before]
    simp [step n (Nat.lt_succ_self n)]

/-- A loop stops at a step that cannot be made. -/
theorem foldlM_range_eq_none {α : Type} {f : α → Nat → Option α} {n i : Nat} (hi : i < n)
    (stuck : ∀ a, f a i = none) (a : α) : (List.range n).foldlM f a = none := by
  induction n with
  | zero => exact absurd hi (Nat.not_lt_zero i)
  | succ n ih =>
    rw [List.range_succ, List.foldlM_append]
    rcases Nat.lt_succ_iff_lt_or_eq.1 hi with hi | rfl
    · rw [ih hi]
      rfl
    · cases (List.range i).foldlM f a with
      | none => rfl
      | some a => simp [stuck a]

theorem minus?_of_le {a b : Nat} (h : b ≤ a) : minus? a b = some (a - b) := if_pos h

theorem putByte?_of_lt {i : Nat} {v : UInt8} {buffer : ByteArray} (h : i < buffer.size) :
    putByte? i v buffer = some (buffer.set i v h) := dif_pos h

/-- Three bytes put into their places, one after the other. -/
theorem putByte?_triple {b : ByteArray} {i : Nat} (h : i + 2 < b.size) (f : Nat → UInt8) :
    ∃ result, (do
        let b ← putByte? i (f 0) b
        let b ← putByte? (i + 1) (f 1) b
        putByte? (i + 2) (f 2) b) = some result ∧
      result.size = b.size ∧
      ∀ k, Bytes.get result k = if i ≤ k ∧ k < i + 3 then f (k - i) else Bytes.get b k := by
  have first : i < b.size := by omega
  have second : i + 1 < (b.set i (f 0) first).size := by
    rw [Bytes.size_set]
    omega
  have third : i + 2 < ((b.set i (f 0) first).set (i + 1) (f 1) second).size := by
    rw [Bytes.size_set, Bytes.size_set]
    exact h
  refine ⟨((b.set i (f 0) first).set (i + 1) (f 1) second).set (i + 2) (f 2) third, ?_, ?_, ?_⟩
  · simp only [Option.bind_eq_bind, putByte?_of_lt first, putByte?_of_lt second,
      putByte?_of_lt third, Option.bind_some]
  · simp
  · intro k
    rw [Bytes.get_set, Bytes.get_set, Bytes.get_set]
    by_cases inside : i ≤ k ∧ k < i + 3
    · obtain rfl | rfl | rfl : k = i ∨ k = i + 1 ∨ k = i + 2 := by omega
      · simp
      · simp
      · simp
    · rw [if_neg inside, if_neg (by omega), if_neg (by omega), if_neg (by omega)]

section Painted

variable {width height : Nat} {px : Array UInt32}

theorem place_lt {row column : Nat} (hr : row < width) (hc : column < height) :
    row * height + column < width * height := by
  have rows : (row + 1) * height ≤ width * height := Nat.mul_le_mul_right height hr
  rw [Nat.succ_mul] at rows
  omega

theorem get_painted (n : Nat) {k : Nat} (hk : k < 3 * (width * height)) :
    Bytes.get (painted width height px n) k =
      if k / 3 < n then Bytes.get (uprightRgb width height px) k else 0 := by
  rw [Bytes.get_of_lt (by simpa [painted] using hk)]
  simp [painted]

theorem painted_zero : painted width height px 0 = Bytes.zeros (width * height * 3) := by
  apply Bytes.eq_of_get
  · simp [painted, Nat.mul_comm]
  · intro k hk
    rw [painted, Bytes.size_ofFn] at hk
    rw [get_painted 0 hk, Bytes.get_zeros, if_neg (Nat.not_lt_zero _)]

theorem painted_all : painted width height px (width * height) = uprightRgb width height px := by
  apply Bytes.eq_of_get
  · simp [painted, uprightRgb]
  · intro k hk
    rw [painted, Bytes.size_ofFn] at hk
    rw [get_painted _ hk, if_pos (by omega)]

/-- **One pixel**: it is found in the raster, and its place in the buffer, and then one more triple is
that of the upright picture. -/
theorem paintPixel_painted (enough : width * height ≤ px.size) {row column : Nat} (hr : row < width)
    (hc : column < height) :
    paintPixel width height px row column (painted width height px (row * height + column)) =
      some (painted width height px (row * height + column + 1)) := by
  have inside := place_lt hr hc
  have source : column * width + (width - 1 - row) < px.size := by
    have lines := place_lt hc (show width - 1 - row < width by omega)
    rw [Nat.mul_comm] at enough
    omega
  have size (n : Nat) : (painted width height px n).size = 3 * (width * height) := Bytes.size_ofFn ..
  obtain ⟨result, put, size', get'⟩ := putByte?_triple
    (b := painted width height px (row * height + column)) (i := (row * height + column) * 3)
    (by rw [size]; omega) (Pixel.channel px[column * width + (width - 1 - row)])
  have looked : paintPixel width height px row column
      (painted width height px (row * height + column)) = some result := by
    rw [paintPixel, minus?_of_le (by omega : 1 ≤ width)]
    simp only [Option.bind_eq_bind, Option.bind_some, minus?_of_le (by omega : row ≤ width - 1),
      Array.getElem?_eq_getElem source]
    exact put
  rw [looked]
  congr 1
  apply Bytes.eq_of_get
  · rw [size', size, size]
  · intro k hk
    rw [size', size] at hk
    rw [get', get_painted _ hk, get_painted _ hk]
    by_cases here : (row * height + column) * 3 ≤ k ∧ k < (row * height + column) * 3 + 3
    · obtain ⟨c, hc3, rfl⟩ : ∃ c < 3, k = 3 * (row * height + column) + c :=
        ⟨k - 3 * (row * height + column), by omega, by omega⟩
      rw [if_pos here, if_pos (by omega), get_uprightRgb px hr hc hc3, uprightSource,
        Array.getD_eq_getD_getElem?, Array.getElem?_eq_getElem source, Option.getD_some]
      congr 1
      omega
    · rw [if_neg here]
      by_cases before : k / 3 < row * height + column
      · rw [if_pos before, if_pos (by omega)]
      · rw [if_neg before, if_neg (by omega)]

/-- **One row.** -/
theorem paintRow_painted (enough : width * height ≤ px.size) {row : Nat} (hr : row < width) :
    paintRow width height px row (painted width height px (row * height)) =
      some (painted width height px ((row + 1) * height)) := by
  have row_done := foldlM_range_eq_some (n := height)
    (f := fun buffer column => paintPixel width height px row column buffer)
    (s := fun column => painted width height px (row * height + column))
    fun column hc => paintPixel_painted enough hr hc
  rw [Nat.succ_mul]
  exact row_done

/-- **A raster with all its pixels is painted to the end**, and what is painted is the upright
picture. -/
theorem paintUpright_eq (enough : width * height ≤ px.size) :
    paintUpright width height px = some (uprightRgb width height px) := by
  have all_done := foldlM_range_eq_some (n := width)
    (f := fun buffer row => paintRow width height px row buffer)
    (s := fun row => painted width height px (row * height))
    fun row hr => paintRow_painted enough hr
  rw [paintUpright, ← painted_zero, ← painted_all, ← Nat.zero_mul height]
  exact all_done

/-- A raster that lacks a pixel is not: the last one is looked for in the first row. -/
theorem paintUpright_eq_none (short : px.size < width * height) :
    paintUpright width height px = none := by
  have hw : 0 < width := Nat.pos_of_ne_zero fun h => by simp [h] at short
  have hh : 0 < height := Nat.pos_of_ne_zero fun h => by simp [h] at short
  apply foldlM_range_eq_none hw
  intro buffer
  apply foldlM_range_eq_none (show height - 1 < height by omega)
  intro buffer
  have last : (height - 1) * width + (width - 1 - 0) = width * height - 1 := by
    rw [Nat.sub_one_mul, Nat.mul_comm height]
    have := Nat.le_mul_of_pos_right width hh
    omega
  have missing : px[(height - 1) * width + (width - 1 - 0)]? = none :=
    Array.getElem?_eq_none (by omega)
  rw [paintPixel, minus?_of_le (by omega : 1 ≤ width)]
  simp only [Option.bind_eq_bind, Option.bind_some, minus?_of_le (Nat.zero_le _), missing,
    Option.bind_none]

end Painted

/-! ### Places -/

/-- The number of the place at which the upright picture shows a pixel of the raster, counted row by
row: the column of the pixel, counted from the right, is the row, and its line is the column. -/
def landing (width height : Nat) (p : Fin width × Fin height) : Fin (width * height) :=
  ⟨(width - 1 - p.1) * height + p.2, place_lt (by omega) p.2.isLt⟩

/-- **Every place of the upright picture shows one pixel of the raster.** -/
theorem bijective_landing (width height : Nat) :
    Function.Bijective (landing width height) := by
  have same : landing width height =
      (Fin.revPerm.prodCongr (Equiv.refl (Fin height))).trans finProdFinEquiv := by
    funext p
    apply Fin.ext
    show (width - 1 - p.1.val) * height + p.2.val = p.2.val + height * (width - (p.1.val + 1))
    rw [Nat.sub_sub, Nat.add_comm 1, Nat.mul_comm height, Nat.add_comm]
  rw [same]
  exact Equiv.bijective _

/-! ### Turning again -/

namespace Pixel

/-- The opaque pixel with the given colour values. -/
def solid (red green blue : UInt8) : UInt32 :=
  (0xFF000000 : UInt32) ||| (red.toUInt32 <<< 16 ||| (green.toUInt32 <<< 8 ||| blue.toUInt32))

/-- A pixel made opaque. -/
def solidified (p : UInt32) : UInt32 := 0xFF000000 ||| (p &&& 0x00FFFFFF)

theorem toNat_solid (red green blue : UInt8) : (solid red green blue).toNat =
    0xFF000000 ||| (red.toNat * 2 ^ 16 + (green.toNat * 2 ^ 8 + blue.toNat)) := by
  have hr := red.toNat_lt
  have hg := green.toNat_lt
  have hb := blue.toNat_lt
  have low : green.toNat * 2 ^ 8 + blue.toNat < 2 ^ 16 := by omega
  have shifted : ∀ n < 256, ∀ k ≤ 16, n * 2 ^ k % 2 ^ 32 = n * 2 ^ k := by
    intro n hn k hk
    apply Nat.mod_eq_of_lt
    have : n * 2 ^ k ≤ n * 2 ^ 16 := Nat.mul_le_mul_left n (Nat.pow_le_pow_right (by decide) hk)
    omega
  rw [← Nat.shiftLeft_eq, Nat.shiftLeft_add_eq_or_of_lt low, ← Nat.shiftLeft_eq,
    Nat.shiftLeft_add_eq_or_of_lt hb, Nat.shiftLeft_eq, Nat.shiftLeft_eq,
    ← shifted _ hr 16 (by decide), ← shifted _ hg 8 (by decide)]
  simp [solid, Nat.shiftLeft_eq]

theorem toNat_red (p : UInt32) : (channel p 0).toNat = p.toNat / 2 ^ 16 % 256 := by
  simp [channel, Nat.shiftRight_eq_div_pow]

theorem toNat_green (p : UInt32) : (channel p 1).toNat = p.toNat / 2 ^ 8 % 256 := by
  simp [channel, Nat.shiftRight_eq_div_pow]

theorem toNat_blue (p : UInt32) : (channel p 2).toNat = p.toNat % 256 := by simp [channel]

/-- A pixel but for its alpha value. -/
theorem toNat_colours (p : UInt32) : (p &&& 0x00FFFFFF).toNat = p.toNat % 2 ^ 24 := by
  rw [UInt32.toNat_and]
  exact Nat.and_two_pow_sub_one_eq_mod p.toNat 24

/-- The values of a pixel make up the pixel, but for its alpha value. -/
theorem solid_channel (p : UInt32) :
    solid (channel p 0) (channel p 1) (channel p 2) = solidified p := by
  rw [← UInt32.toNat_inj, toNat_solid, toNat_red, toNat_green, toNat_blue, solidified, UInt32.toNat_or,
    toNat_colours]
  show _ = 0xFF000000 ||| p.toNat % 2 ^ 24
  congr 1
  omega

/-- A pixel is made opaque once. -/
theorem solidified_solidified (p : UInt32) : solidified (solidified p) = solidified p := by
  apply UInt32.eq_of_toBitVec_eq
  ext i
  simp only [solidified, UInt32.toBitVec_or, UInt32.toBitVec_and, BitVec.getElem_or,
    BitVec.getElem_and]
  cases (0xFF000000 : UInt32).toBitVec[i]
  · cases p.toBitVec[i] <;> simp
  · simp

end Pixel

/-- The triples of colour values as opaque pixels. -/
def solidPixels (rgb : ByteArray) : Array UInt32 :=
  Array.ofFn (n := rgb.size / 3) fun i =>
    Pixel.solid (Bytes.get rgb (3 * i)) (Bytes.get rgb (3 * i + 1)) (Bytes.get rgb (3 * i + 2))

/-- The raster that the upright picture makes, with opaque pixels. Its lines are as long as those of
the first raster are many. -/
def turned (width height : Nat) (px : Array UInt32) : Array UInt32 :=
  solidPixels (uprightRgb width height px)

section Turned

variable {width height : Nat} {px : Array UInt32}

theorem size_turned : (turned width height px).size = width * height := by
  simp [turned, solidPixels, uprightRgb]

/-- **What a turned raster shows**: line `y` is what column `y` was, counted from the right. -/
theorem getElem?_turned (enough : width * height ≤ px.size) {x y : Nat} (hx : x < height)
    (hy : y < width) : (turned width height px)[y * height + x]? =
      px[x * width + (width - 1 - y)]?.map Pixel.solidified := by
  have inside := place_lt hy hx
  have source : x * width + (width - 1 - y) < px.size := by
    have lines := place_lt hx (show width - 1 - y < width by omega)
    rw [Nat.mul_comm] at enough
    omega
  have value : ∀ c < 3, Bytes.get (uprightRgb width height px) (3 * (y * height + x) + c) =
      Pixel.channel px[x * width + (width - 1 - y)] c := by
    intro c hc
    rw [get_uprightRgb px hy hx hc, uprightSource, Array.getD_eq_getD_getElem?,
      Array.getElem?_eq_getElem source, Option.getD_some]
  rw [Array.getElem?_eq_getElem (by rwa [size_turned]), Array.getElem?_eq_getElem source,
    Option.map_some, ← Pixel.solid_channel, ← value 0 (by decide), ← value 1 (by decide),
    ← value 2 (by decide)]
  simp [turned, solidPixels]

/-- **Two turns are half a turn.** -/
theorem getElem?_turned_turned (enough : width * height ≤ px.size) {x y : Nat} (hx : x < width)
    (hy : y < height) : (turned height width (turned width height px))[y * width + x]? =
      px[(height - 1 - y) * width + (width - 1 - x)]?.map Pixel.solidified := by
  have enough' : height * width ≤ (turned width height px).size := by
    rw [size_turned, Nat.mul_comm]
  rw [getElem?_turned enough' hx hy, getElem?_turned enough (by omega) hx, Option.map_map]
  congr 1
  funext p
  exact Pixel.solidified_solidified p

/-- **Four turns give the raster back**, with opaque pixels. -/
theorem getElem?_four_turns (enough : width * height ≤ px.size) {x y : Nat} (hx : x < width)
    (hy : y < height) :
    (turned height width (turned width height
        (turned height width (turned width height px))))[y * width + x]? =
      px[y * width + x]?.map Pixel.solidified := by
  have half : width * height ≤ (turned height width (turned width height px)).size := by
    rw [size_turned, Nat.mul_comm]
  rw [getElem?_turned_turned half hx hy, getElem?_turned_turned enough (by omega) (by omega),
    Option.map_map, show height - 1 - (height - 1 - y) = y by omega,
    show width - 1 - (width - 1 - x) = x by omega]
  congr 1
  funext p
  exact Pixel.solidified_solidified p

end Turned

/-! ### The quarter turn -/

/-- **The upright picture is the raster after a quarter turn**, whatever its width and its height. It
is painted to the end without looking for a pixel or a place that is not there, and has three bytes for
each pixel. The pixel in column `x` of line `y` is shown at row `width - 1 - x` and column `y`, which
are different places for different pixels, and all places. Four turns give back the colours. -/
theorem upright_is_quarter_turn (width height : Nat) (px : Array UInt32)
    (enough : width * height ≤ px.size) :
    paintUpright width height px = some (uprightRgb width height px) ∧
    (uprightRgb width height px).size = 3 * width * height ∧
    (∀ (x : Fin width) (y : Fin height),
      (landing width height (x, y)).val = (width - 1 - x) * height + y ∧
      ∀ channel : Fin 3, px[y * width + x]?.map (Pixel.channel · channel) =
        some (Bytes.get (uprightRgb width height px) (3 * (landing width height (x, y)).val + channel))) ∧
    Function.Bijective (landing width height) ∧
    (turned height width (turned width height
        (turned height width (turned width height px)))).size = width * height ∧
    ∀ i < width * height,
      (turned height width (turned width height
          (turned height width (turned width height px))))[i]? =
        px[i]?.map fun p => 0xFF000000 ||| (p &&& 0x00FFFFFF) := by
  refine ⟨paintUpright_eq enough, ?_, ?_, bijective_landing width height, ?_, ?_⟩
  · rw [Nat.mul_assoc]
    exact Bytes.size_ofFn ..
  · intro x y
    refine ⟨rfl, ?_⟩
    intro channel
    have source : y * width + x < px.size := by
      have lines := place_lt y.isLt x.isLt
      rw [Nat.mul_comm] at enough
      omega
    have back : uprightSource width (width - 1 - x) y = y * width + x := by
      rw [uprightSource]
      omega
    show _ = some (Bytes.get _ (3 * ((width - 1 - x) * height + y) + channel))
    rw [get_uprightRgb px (by omega) y.isLt channel.isLt, back, Array.getD_eq_getD_getElem?,
      Array.getElem?_eq_getElem source, Option.getD_some, Option.map_some]
  · rw [size_turned, Nat.mul_comm]
  · intro i hi
    have filled : 0 < width := Nat.pos_of_ne_zero fun h => by simp [h] at hi
    have pixel := getElem?_four_turns enough (Nat.mod_lt i filled) (Nat.div_lt_of_lt_mul hi)
    rw [Nat.div_add_mod'] at pixel
    exact pixel

/-- Two lines of three pixels, opaque and not, and a pixel more. -/
def pennant : Array UInt32 :=
  #[0x00112233, 0x80445566, 0xFF778899, 0x00AABBCC, 0x7FDDEEFF, 0x01020304, 5]

theorem pennant_turned :
    3 * 2 ≤ pennant.size ∧
      paintUpright 3 2 pennant = some (Bytes.ofList
        [0x77, 0x88, 0x99, 0x02, 0x03, 0x04, 0x44, 0x55, 0x66, 0xDD, 0xEE, 0xFF,
          0x11, 0x22, 0x33, 0xAA, 0xBB, 0xCC]) ∧
      (turned 2 3 (turned 3 2 (turned 2 3 (turned 3 2 pennant))))[4]? = some 0xFFDDEEFF := by
  have enough : 3 * 2 ≤ pennant.size := by decide
  obtain ⟨paints, -, -, -, -, again⟩ := upright_is_quarter_turn 3 2 pennant enough
  refine ⟨enough, ?_, ?_⟩
  · rw [paints]
    decide
  · rw [again 4 (by decide)]
    decide

end Cabinet
