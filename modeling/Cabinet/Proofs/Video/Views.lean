import Cabinet.Proofs.Video.QuarterTurn
import Mathlib.Data.Fintype.EquivFin
import Mathlib.Data.List.FinRange
/-!
# Three views of the pixels

The pixels are seen as grey values, as triples of colour values and as the upright picture. The first
two are written over bytes that somebody else provides, one pixel after the other, until there are no
more pixels or no more room (`greyOver`, `rgbOver`), so what is written is known place by place
(`PixelBuffer.get_grayscale`, `PixelBuffer.tripleAt_render`), and what stood behind is still there. The
views agree: a grey value is zero exactly if its triple is black (`Pixel.isColoured_eq_false_iff`), and
the upright picture holds the triples at other places (`PixelBuffer.tripleAt_upright`). All of it
together is `PixelBuffer.views_agree`.
-/

namespace Cabinet

/-! ### Colours -/

namespace Pixel

/-- The colour values of a pixel. -/
def rgb (p : UInt32) : UInt8 × UInt8 × UInt8 := (channel p 0, channel p 1, channel p 2)

/-- The grey value of a pixel. -/
def grey (p : UInt32) : UInt8 := if isColoured p then 255 else 0

/-- **A pixel is black if all its colour values are zero**, whatever its alpha value. -/
theorem isColoured_eq_false_iff (p : UInt32) : isColoured p = false ↔ rgb p = (0, 0, 0) := by
  have colours : isColoured p = false ↔ p.toNat % 2 ^ 24 = 0 := by
    rw [isColoured, bne_eq_false_iff_eq, ← UInt32.toNat_inj, toNat_colours]
    rfl
  have values : rgb p = (0, 0, 0) ↔
      p.toNat / 2 ^ 16 % 256 = 0 ∧ p.toNat / 2 ^ 8 % 256 = 0 ∧ p.toNat % 256 = 0 := by
    rw [← toNat_red, ← toNat_green, ← toNat_blue, rgb, Prod.mk.injEq, Prod.mk.injEq, ← UInt8.toNat_inj,
      ← UInt8.toNat_inj, ← UInt8.toNat_inj]
    rfl
  rw [colours, values]
  omega

theorem grey_eq (p : UInt32) : grey p = if rgb p = (0, 0, 0) then 0 else 255 := by
  rw [grey]
  by_cases black : rgb p = (0, 0, 0)
  · rw [(isColoured_eq_false_iff p).2 black, if_pos black]
    rfl
  · rw [Bool.eq_true_of_not_eq_false (black ∘ (isColoured_eq_false_iff p).1), if_neg black]
    rfl

end Pixel

/-! ### Writing one pixel after the other -/

/-- Grey values written over bytes, one for each pixel, until there are no more pixels or no more
bytes. -/
def greyOver : List UInt32 → List UInt8 → List UInt8
  | p :: ps, _ :: bs => Pixel.grey p :: greyOver ps bs
  | _, bs => bs

/-- Triples of colour values written over bytes, one for each pixel, until there are no more pixels or
fewer than three bytes. -/
def rgbOver : List UInt32 → List UInt8 → List UInt8
  | p :: ps, _ :: _ :: _ :: bs =>
    Pixel.channel p 0 :: Pixel.channel p 1 :: Pixel.channel p 2 :: rgbOver ps bs
  | _, bs => bs

theorem length_greyOver (ps : List UInt32) (bs : List UInt8) : (greyOver ps bs).length = bs.length := by
  fun_induction greyOver ps bs with
  | case1 p ps b bs ih => rw [List.length_cons, List.length_cons, ih]
  | case2 ps bs => rfl

theorem length_rgbOver (ps : List UInt32) (bs : List UInt8) : (rgbOver ps bs).length = bs.length := by
  fun_induction rgbOver ps bs with
  | case1 p ps b c d bs ih => simp only [List.length_cons, ih]
  | case2 ps bs => rfl

theorem getD_greyOver (ps : List UInt32) (bs : List UInt8) (i : Nat) :
    (greyOver ps bs).getD i 0 =
      if i < ps.length ∧ i < bs.length then Pixel.grey (ps.getD i 0) else bs.getD i 0 := by
  fun_induction greyOver ps bs generalizing i with
  | case1 p ps b bs ih =>
    cases i with
    | zero => simp
    | succ i =>
      rw [List.getD_cons_succ, List.getD_cons_succ, List.getD_cons_succ, ih]
      simp
  | case2 ps bs stop =>
    rw [if_neg]
    rintro ⟨hp, hb⟩
    match ps, bs with
    | p :: ps, b :: bs => exact stop p ps b bs rfl rfl

theorem getD_rgbOver (ps : List UInt32) (bs : List UInt8) (i : Nat) :
    (rgbOver ps bs).getD i 0 =
      if i / 3 < ps.length ∧ i / 3 < bs.length / 3 then Pixel.channel (ps.getD (i / 3) 0) (i % 3)
      else bs.getD i 0 := by
  fun_induction rgbOver ps bs generalizing i with
  | case1 p ps b c d bs ih =>
    match i with
    | 0 | 1 | 2 => simp
    | i + 3 =>
      have next : (i + 3) / 3 = i / 3 + 1 := by omega
      have room : i / 3 + 1 < (bs.length + 1 + 1 + 1) / 3 ↔ i / 3 < bs.length / 3 := by omega
      simp only [List.getD_cons_succ, ih, next, List.length_cons, room, Nat.add_lt_add_iff_right,
        Nat.add_mod_right]
  | case2 ps bs stop =>
    rw [if_neg]
    rintro ⟨hp, hb⟩
    match ps, bs with
    | p :: ps, b :: c :: d :: bs => exact stop p ps b c d bs rfl rfl
    | p :: ps, [_] | p :: ps, [_, _] => simp at hb

/-! ### The views -/

/-- The three bytes at a place, places being counted in triples. -/
def tripleAt (b : ByteArray) (k : Nat) : UInt8 × UInt8 × UInt8 :=
  (Bytes.get b (3 * k), Bytes.get b (3 * k + 1), Bytes.get b (3 * k + 2))

theorem tripleAt_eq_rgb {b : ByteArray} {k : Nat} {p : UInt32}
    (h : ∀ c < 3, Bytes.get b (3 * k + c) = Pixel.channel p c) : tripleAt b k = Pixel.rgb p := by
  rw [tripleAt, ← Nat.add_zero (3 * k), h 0 (by decide), Nat.add_zero, h 1 (by decide),
    h 2 (by decide), Pixel.rgb]

namespace PixelBuffer

variable (px : PixelBuffer) (out : ByteArray)

theorem getD_toList (i : Fin pixelCount) : px.toList.getD i 0 = px.get i := by
  rw [List.getD_eq_getElem?_getD, List.getElem?_eq_getElem (by simp), Option.getD_some,
    Vector.getElem_toList]
  rfl

theorem size_grayscale : (px.grayscale out).size = out.size := Bytes.size_ofFn ..

theorem size_render : (px.render out).size = out.size := Bytes.size_ofFn ..

/-- **The grey values are written one after the other.** -/
theorem grayscale_eq : px.grayscale out = Bytes.ofList (greyOver px.toList out.data.toList) := by
  apply Bytes.eq_of_get
  · rw [size_grayscale, Bytes.size_ofList, length_greyOver]
    rfl
  · intro i hi
    rw [Bytes.get_of_lt hi, Bytes.get_ofList, getD_greyOver, Vector.length_toList, Bytes.getD_toList]
    rw [size_grayscale] at hi
    by_cases pixel : i < pixelCount
    · rw [if_pos ⟨pixel, hi⟩, px.getD_toList ⟨i, pixel⟩]
      simp only [grayscale, Bytes.getElem_ofFn, dif_pos pixel]
      rfl
    · rw [if_neg fun h => pixel h.1, Bytes.get_of_lt hi]
      simp only [grayscale, Bytes.getElem_ofFn, dif_neg pixel]
      rfl

/-- **The triples are written one after the other.** -/
theorem render_eq : px.render out = Bytes.ofList (rgbOver px.toList out.data.toList) := by
  apply Bytes.eq_of_get
  · rw [size_render, Bytes.size_ofList, length_rgbOver]
    rfl
  · intro i hi
    rw [Bytes.get_of_lt hi, Bytes.get_ofList, getD_rgbOver, Vector.length_toList, Bytes.getD_toList]
    rw [size_render] at hi
    show _ = if i / 3 < pixelCount ∧ i / 3 < out.size / 3 then _ else _
    by_cases pixel : i / 3 < pixelCount ∧ i / 3 < out.size / 3
    · rw [if_pos pixel, px.getD_toList ⟨i / 3, pixel.1⟩]
      simp only [render, Bytes.getElem_ofFn, dif_pos pixel]
      rfl
    · rw [if_neg pixel, Bytes.get_of_lt hi]
      simp only [render, Bytes.getElem_ofFn, dif_neg pixel]
      rfl

theorem get_grayscale (i : Nat) : Bytes.get (px.grayscale out) i =
    if i < pixelCount ∧ i < out.size then Pixel.grey (px.toList.getD i 0) else Bytes.get out i := by
  rw [grayscale_eq, Bytes.get_ofList, getD_greyOver, Vector.length_toList, Bytes.getD_toList]
  rfl

theorem get_render (i : Nat) : Bytes.get (px.render out) i =
    if i / 3 < pixelCount ∧ i / 3 < out.size / 3 then Pixel.channel (px.toList.getD (i / 3) 0) (i % 3)
    else Bytes.get out i := by
  rw [render_eq, Bytes.get_ofList, getD_rgbOver, Vector.length_toList, Bytes.getD_toList]
  rfl

/-- A triple, where there is room for it. -/
theorem tripleAt_render (k : Fin pixelCount) (room : k.val < out.size / 3) :
    tripleAt (px.render out) k = Pixel.rgb (px.get k) := by
  apply tripleAt_eq_rgb
  intro c hc
  have place : (3 * k.val + c) / 3 = k := by omega
  have channel : (3 * k.val + c) % 3 = c := by omega
  rw [get_render, place, channel, if_pos ⟨k.isLt, room⟩, getD_toList]

theorem uprightSource_lt (k : Fin pixelCount) : uprightSource 256 (k / 224) (k % 224) < pixelCount := by
  have bound : k.val < 57344 := k.isLt
  show _ < 57344
  rw [uprightSource]
  omega

/-- Where the pixel lies that the upright picture shows at a place. -/
def shownAt (k : Fin pixelCount) : Fin pixelCount := ⟨_, uprightSource_lt k⟩

/-- A triple of the upright picture. -/
theorem tripleAt_upright (k : Fin pixelCount) :
    tripleAt (uprightRgb 256 224 px.toArray) k = Pixel.rgb (px.get (shownAt k)) := by
  have bound : k.val < 57344 := k.isLt
  have place : k.val / 224 * 224 + k.val % 224 = k.val := Nat.div_add_mod' ..
  apply tripleAt_eq_rgb
  intro c hc
  have shown := get_uprightRgb px.toArray (show k.val / 224 < 256 by omega)
    (Nat.mod_lt k.val (by decide : 0 < 224)) hc
  rw [place, Array.getD_eq_getD_getElem?, Array.getElem?_eq_getElem
    (by rw [Vector.size_toArray]; exact (shownAt k).isLt), Option.getD_some,
    Vector.getElem_toArray] at shown
  exact shown

/-- Every pixel is shown at one place. -/
theorem bijective_shownAt : Function.Bijective shownAt := by
  refine Finite.injective_iff_bijective.1 fun j k same => ?_
  have hj : j.val < 57344 := j.isLt
  have hk : k.val < 57344 := k.isLt
  have places : uprightSource 256 (j / 224) (j % 224) = uprightSource 256 (k / 224) (k % 224) :=
    congrArg Fin.val same
  rw [uprightSource, uprightSource] at places
  apply Fin.ext
  omega

/-- **The upright picture holds the triples**, each at another place. -/
theorem tripleAt_upright_eq (k : Fin pixelCount) {canvas : ByteArray} (room : 172032 ≤ canvas.size) :
    tripleAt (uprightRgb 256 224 px.toArray) k = tripleAt (px.render canvas) (shownAt k) := by
  have inside : (shownAt k).val < 57344 := (shownAt k).isLt
  rw [tripleAt_upright, tripleAt_render px canvas _ (by omega)]

/-- **A grey value** tells whether the triple of its pixel is black. -/
theorem get_grayscale_of_lt {i : Nat} (hi : i < min out.size 57344) {canvas : ByteArray}
    (room : i < canvas.size / 3) : Bytes.get (px.grayscale out) i =
      if tripleAt (px.render canvas) i = (0, 0, 0) then 0 else 255 := by
  have count : pixelCount = 57344 := rfl
  have pixel : i < pixelCount := by omega
  rw [get_grayscale, if_pos ⟨pixel, by omega⟩, px.getD_toList ⟨i, pixel⟩, Pixel.grey_eq,
    px.tripleAt_render canvas ⟨i, pixel⟩ room]

/-- **A triple of the upright picture** by its row and column. -/
theorem tripleAt_upright_row {canvas : ByteArray} (room : 172032 ≤ canvas.size) (r : Fin 256)
    (q : Fin 224) : tripleAt (uprightRgb 256 224 px.toArray) (224 * r + q) =
      tripleAt (px.render canvas) (256 * q + 255 - r) := by
  have inside : 224 * r.val + q.val < pixelCount := by
    show _ < 57344
    omega
  have column : (224 * r.val + q.val) % 224 = q := by omega
  have row : (224 * r.val + q.val) / 224 = r := by omega
  have shown : (shownAt ⟨224 * r + q, inside⟩).val = 256 * q + 255 - r := by
    show uprightSource 256 ((224 * r.val + q.val) / 224) ((224 * r.val + q.val) % 224) = _
    rw [row, column, uprightSource]
    omega
  rw [← shown]
  exact px.tripleAt_upright_eq ⟨224 * r + q, inside⟩ room

theorem perm_upright {canvas : ByteArray} (room : 172032 ≤ canvas.size) :
    (List.ofFn fun k : Fin pixelCount => tripleAt (uprightRgb 256 224 px.toArray) k).Perm
      (List.ofFn fun k : Fin pixelCount => tripleAt (px.render canvas) k) := by
  have same : (fun k : Fin pixelCount => tripleAt (uprightRgb 256 224 px.toArray) k) =
      (fun k : Fin pixelCount => tripleAt (px.render canvas) k) ∘
        Equiv.ofBijective shownAt bijective_shownAt := by
    funext k
    exact px.tripleAt_upright_eq k room
  rw [same]
  exact Equiv.Perm.ofFn_comp_perm _ _

/-- **The three views agree**, whatever the pixels are, opaque or not, and however long the bytes are
over which the first two are written.

* The grey values and the triples are written one after the other, as long as there are pixels and
  there is room, which is for the first `min n 57344` bytes of `n` and for the first `min (n / 3) 57344`
  triples; all bytes behind, those of a triple that has not enough room among them, stay as they are.
* A grey value is 0 if the triple of the same pixel is black, and 255 if it is not.
* The upright picture holds the triples in another order: at row `r` and column `q` stands the triple of
  pixel `256 * q + 255 - r`. -/
theorem views_agree (px : PixelBuffer) :
    pixelCount = 57344 ∧
    (∀ out : ByteArray,
      px.grayscale out = Bytes.ofList (greyOver px.toList out.data.toList) ∧
      (px.grayscale out).size = out.size ∧
      (∀ i < min out.size 57344, ∀ canvas : ByteArray, i < canvas.size / 3 →
        Bytes.get (px.grayscale out) i =
          if tripleAt (px.render canvas) i = (0, 0, 0) then 0 else 255) ∧
      ∀ i, min out.size 57344 ≤ i → Bytes.get (px.grayscale out) i = Bytes.get out i) ∧
    (∀ out : ByteArray,
      px.render out = Bytes.ofList (rgbOver px.toList out.data.toList) ∧
      (px.render out).size = out.size ∧
      (∀ k : Fin pixelCount, k.val < min (out.size / 3) 57344 →
        tripleAt (px.render out) k = Pixel.rgb (px.get k)) ∧
      ∀ i, 3 * min (out.size / 3) 57344 ≤ i → Bytes.get (px.render out) i = Bytes.get out i) ∧
    (uprightRgb 256 224 px.toArray).size = 3 * 57344 ∧
    ∀ canvas : ByteArray, 3 * 57344 ≤ canvas.size →
      (∀ (r : Fin 256) (q : Fin 224), tripleAt (uprightRgb 256 224 px.toArray) (224 * r + q) =
        tripleAt (px.render canvas) (256 * q + 255 - r)) ∧
      (List.ofFn fun k : Fin pixelCount => tripleAt (uprightRgb 256 224 px.toArray) k).Perm
        (List.ofFn fun k : Fin pixelCount => tripleAt (px.render canvas) k) := by
  have count : pixelCount = 57344 := rfl
  refine ⟨count, ?_, ?_, Bytes.size_ofFn .., ?_⟩
  · intro out
    refine ⟨px.grayscale_eq out, px.size_grayscale out, ?_, ?_⟩
    · intro i hi canvas room
      exact px.get_grayscale_of_lt out hi room
    · intro i hi
      rw [get_grayscale, if_neg (by omega)]
  · intro out
    refine ⟨px.render_eq out, px.size_render out, ?_, ?_⟩
    · intro k room
      exact px.tripleAt_render out k (by omega)
    · intro i hi
      rw [get_render, if_neg (by omega)]
  · intro canvas room
    exact ⟨px.tripleAt_upright_row room, px.perm_upright room⟩

end PixelBuffer

end Cabinet
