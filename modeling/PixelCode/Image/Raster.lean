/-! Images as pixels with four channels of eight bits, and the sample layouts they are made from. -/
namespace PixelCode

structure Raster where
  width : Nat
  height : Nat
  rgba : List UInt8
  deriving DecidableEq, Repr

inductive Channels where
  | grey | greyAlpha | rgb | rgba
  deriving DecidableEq, Repr

namespace Channels

def count : Channels → Nat
  | grey => 1
  | greyAlpha => 2
  | rgb => 3
  | rgba => 4

/-- Samples of eight bits as pixels: grey stands for all three colours, and a missing alpha is
opaque. A partial pixel at the end is ignored. -/
def toRgba : Channels → List UInt8 → List UInt8
  | grey, v :: rest => v :: v :: v :: 255 :: toRgba grey rest
  | greyAlpha, v :: a :: rest => v :: v :: v :: a :: toRgba greyAlpha rest
  | rgb, r :: g :: b :: rest => r :: g :: b :: 255 :: toRgba rgb rest
  | rgba, r :: g :: b :: a :: rest => r :: g :: b :: a :: toRgba rgba rest
  | _, _ => []

end Channels

structure SampleLayout where
  channels : Channels
  wide : Bool
  deriving DecidableEq, Repr

namespace SampleLayout

def rgba8 : SampleLayout := ⟨.rgba, false⟩

def pixelBytes (l : SampleLayout) : Nat := if l.wide then 2 * l.channels.count else l.channels.count

def narrow : List UInt8 → List UInt8
  | high :: low :: rest =>
    UInt8.ofNat ((high.toNat * 256 + low.toNat + 128) / 257) :: narrow rest
  | _ => []

def toRgba (l : SampleLayout) (samples : List UInt8) : List UInt8 :=
  l.channels.toRgba (if l.wide then narrow samples else samples)

end SampleLayout

structure ImageCodec where
  decode : List UInt8 → Except String Raster
  encode : Raster → List UInt8

/-- A codec that reads back each image it wrote, if the image is not empty and its sides fit in 32 bits. It
reads no empty image. -/
structure ImageCodec.Lossless (c : ImageCodec) : Prop where
  positive {bytes : List UInt8} {r : Raster} (h : c.decode bytes = .ok r) : 0 < r.width ∧ 0 < r.height
  decode_encode {r : Raster} (hpositive : 0 < r.width ∧ 0 < r.height) (hwidth : r.width < 0x100000000)
    (hheight : r.height < 0x100000000) (hsize : r.rgba.length = 4 * (r.width * r.height)) :
    c.decode (c.encode r) = .ok r

end PixelCode
