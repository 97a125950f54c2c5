import Cabinet.Video.Raster
/-!
# The upright picture

The monitor stands on its side, so a picture is turned by a quarter before it is stored: the first
pixel of the raster comes to the lower left corner and the end of the first line to the upper left
one.
-/

namespace Cabinet

/-- Where the pixel at a row and a column of the upright picture lies in the raster. -/
def uprightSource (width row column : Nat) : Nat := column * width + (width - 1 - row)

/-- The upright picture as triples of colour values, row by row. It is as wide as the raster is high.
Pixels that the raster lacks are black. -/
def uprightRgb (width height : Nat) (px : Array UInt32) : ByteArray :=
  Bytes.ofFn (3 * (width * height)) fun k =>
    let place := k.val / 3
    Pixel.channel (px.getD (uprightSource width (place / height) (place % height)) 0) (k % 3)

end Cabinet
