import PixelCode.Number.Binary

/-! Remainders and the character code of a double. Fraction and quotient are cut off exactly. -/
namespace PixelCode.Number

def truncated (v : Float) : Float :=
  match Reading.ofFloat v with
  | .finite b => Float.ofBits b.truncated.toBits
  | _ => v

def remainder (x y : Float) : Float :=
  match Reading.ofFloat x, Reading.ofFloat y with
  | .finite a, .finite b =>
    if b.mantissa = 0 then 0.0 / 0.0 else Float.ofBits (a.remainder b).toBits
  | .finite _, .infinity _ => x
  | _, _ => 0.0 / 0.0

def euclideanRemainder (x y : Float) : Float :=
  let r := remainder x y
  if r < 0.0 then r + y.abs else r

def charOfCode (code : UInt32) : Char :=
  if code.toNat.isValidChar then Char.ofNat code.toNat else '�'

def toChar (v : Float) : Char :=
  charOfCode (if v.isFinite then (euclideanRemainder (truncated v) 65536.0).toUInt32 else 0)

end PixelCode.Number
