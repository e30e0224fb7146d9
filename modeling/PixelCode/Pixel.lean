/-! Bytes hidden in the low bits of an image: each pixel holds one byte, two bits to a channel. -/
namespace PixelCode

structure Pixel where
  red : UInt8
  green : UInt8
  blue : UInt8
  alpha : UInt8
  deriving DecidableEq, Repr

namespace Pixel

def byte (px : Pixel) : UInt8 :=
  ((px.red &&& 3) <<< 6) ||| ((px.green &&& 3) <<< 4) ||| ((px.blue &&& 3) <<< 2) ||| (px.alpha &&& 3)

def withLow (channel bits : UInt8) : UInt8 := (channel &&& 0xfc) ||| (bits &&& 3)

def hide (b : UInt8) (px : Pixel) : Pixel where
  red := withLow px.red (b >>> 6)
  green := withLow px.green (b >>> 4)
  blue := withLow px.blue (b >>> 2)
  alpha := withLow px.alpha b

def channels (px : Pixel) : List UInt8 := [px.red, px.green, px.blue, px.alpha]

/-- The whole pixels of a buffer; a partial pixel at its end is ignored. -/
def ofBuffer : List UInt8 → List Pixel
  | r :: g :: b :: a :: rest => ⟨r, g, b, a⟩ :: ofBuffer rest
  | _ => []

def toBuffer (pixels : List Pixel) : List UInt8 := pixels.flatMap channels

def reveal (buffer : List UInt8) : List UInt8 := (ofBuffer buffer).map byte

inductive HideError where
  | sizeMismatch (bytes width height : Nat)
  | coverMismatch (cover expected : Nat)
  deriving DecidableEq, Repr

def HideError.message : HideError → String
  | .sizeMismatch bytes width height =>
    s!"bytecode length {bytes} does not match image size {width}x{height}"
  | .coverMismatch cover expected => s!"cover image has {cover} bytes, expected {expected}"

/-- Sizes in memory are counted modulo this number. -/
def wordSize : Nat := 0x10000000000000000

def area (width height : Nat) : Nat := width * height % wordSize

def coverSize (width height : Nat) : Nat := 4 * area width height % wordSize

def conceal (bytes cover : List UInt8) (width height : Nat) : Except HideError (List UInt8) :=
  if bytes.length ≠ area width height then .error (.sizeMismatch bytes.length width height)
  else if cover.length ≠ coverSize width height then
    .error (.coverMismatch cover.length (coverSize width height))
  else .ok (toBuffer (bytes.zipWith hide (ofBuffer cover)))

def padded (bytes : List UInt8) (capacity : Nat) : List UInt8 :=
  bytes ++ List.replicate (capacity - bytes.length) 0

/-- Hides bytes, followed by zeros, in a cover of the given size. No zeros are made for a cover of
another size. -/
def concealPadded (bytes cover : List UInt8) (width height : Nat) :
    Except HideError (List UInt8) :=
  if cover.length = coverSize width height then
    conceal (padded bytes (area width height)) cover width height
  else if bytes.length ≤ area width height then
    .error (.coverMismatch cover.length (coverSize width height))
  else .error (.sizeMismatch bytes.length width height)

theorem concealPadded_eq (bytes cover : List UInt8) (width height : Nat) :
    concealPadded bytes cover width height =
      conceal (padded bytes (area width height)) cover width height := by
  have hl : (padded bytes (area width height)).length = max bytes.length (area width height) := by
    simp only [padded, List.length_append, List.length_replicate]; omega
  by_cases hc : cover.length = coverSize width height
  · rw [concealPadded, if_pos hc]
  · rw [concealPadded, if_neg hc, conceal, hl]
    by_cases hb : bytes.length ≤ area width height
    · rw [if_pos hb, if_neg (by omega), if_pos hc]
    · rw [if_neg hb, if_pos (by omega), Nat.max_eq_left (by omega)]

/-- Sizes of images that fit in memory are counted as they are. -/
theorem sizes_of_fits {width height : Nat} (h : width * height * 4 < wordSize) :
    area width height = width * height ∧ coverSize width height = 4 * (width * height) := by
  have harea : area width height = width * height := Nat.mod_eq_of_lt (by omega)
  exact ⟨harea, by rw [coverSize, harea]; exact Nat.mod_eq_of_lt (by omega)⟩

end Pixel
end PixelCode
