import Cabinet.Bytes
/-!
# The raster

The picture is a raster of 256 by 224 pixels, one bit of video memory each, the lowest bit of a byte
first. A pixel is opaque and either white or black; a pixel buffer restored from elsewhere may hold
any colours. Callers get the buffer as grey values (`grayscale`) or as triples of colour values
(`render`), written over a buffer of theirs from its start on.
-/

namespace Cabinet

/-- The length of a line of the raster. -/
def screenWidth : Nat := 256

/-- The number of lines. -/
def screenHeight : Nat := 224

/-- The number of pixels. -/
def pixelCount : Nat := screenWidth * screenHeight

/-- The address of the first byte of video memory. -/
def videoBase : UInt16 := 0x2400

/-- The pixels line by line, each as alpha, red, green and blue from the highest byte down. -/
abbrev PixelBuffer := Vector UInt32 pixelCount

namespace Pixel

/-- The colour of a pixel whose bit is set. -/
def lit : UInt32 := 0xFFFFFFFF

/-- The colour of a pixel whose bit is clear. -/
def dark : UInt32 := 0xFF000000

/-- The pixel has some colour other than black. -/
def isColoured (p : UInt32) : Bool := p &&& 0x00FFFFFF != 0

/-- The red, green or blue value of a pixel. -/
def channel (p : UInt32) : Nat → UInt8
  | 0 => (p >>> 16).toUInt8
  | 1 => (p >>> 8).toUInt8
  | _ => p.toUInt8

end Pixel

namespace PixelBuffer

/-- The black picture. -/
def blank : PixelBuffer := Vector.replicate pixelCount Pixel.dark

/-- The picture that video memory holds. -/
def decode (byteAt : UInt16 → UInt8) : PixelBuffer :=
  Vector.ofFn fun i =>
    let byte := byteAt (videoBase + UInt16.ofNat (i / 8))
    if (byte >>> UInt8.ofNat (i % 8)) &&& 1 = 1 then Pixel.lit else Pixel.dark

/-- Writes a grey value for each pixel, as far as the buffer goes. -/
def grayscale (px : PixelBuffer) (out : ByteArray) : ByteArray :=
  Bytes.ofFn out.size fun i =>
    if h : i < pixelCount then if Pixel.isColoured px[i] then 255 else 0 else out[i]

/-- Writes a triple of colour values for each pixel, as far as whole triples go. -/
def render (px : PixelBuffer) (out : ByteArray) : ByteArray :=
  Bytes.ofFn out.size fun i =>
    if h : i / 3 < pixelCount ∧ i / 3 < out.size / 3 then Pixel.channel px[i.val / 3] (i % 3)
    else out[i]

end PixelBuffer

end Cabinet
