/-! The exact value of a double: an integer times a power of two. -/
namespace PixelCode

structure Binary where
  negative : Bool
  mantissa : Nat
  exponent : Int
  deriving DecidableEq, Repr

namespace Binary

/-- The weight of the leading mantissa bit, which the 64 bits of a double leave out. -/
def leadingBit : Nat := 0x10000000000000

def signBit : Nat := 0x8000000000000000

end Binary

inductive Reading where
  | nan
  | infinity (negative : Bool)
  | finite (value : Binary)
  deriving DecidableEq, Repr

namespace Reading

def ofBits (bits : UInt64) : Reading :=
  let negative := decide (Binary.signBit ≤ bits.toNat)
  let scale : Nat := bits.toNat / Binary.leadingBit % 0x800
  let fraction : Nat := bits.toNat % Binary.leadingBit
  if scale = 2047 then
    if fraction = 0 then .infinity negative else .nan
  else if scale = 0 then .finite ⟨negative, fraction, -1074⟩
  else .finite ⟨negative, Binary.leadingBit + fraction, (scale : Int) - 1075⟩

def ofFloat (v : Float) : Reading := ofBits v.toBits

end Reading

namespace Binary

/-- The value without its sign is `numerator / denominator`. -/
def numerator (b : Binary) : Nat := b.mantissa * Nat.pow 2 b.exponent.toNat

def denominator (b : Binary) : Nat := Nat.pow 2 (-b.exponent).toNat

/-- The value rounded toward zero: the bits of the mantissa below the point are cleared. -/
def truncated (b : Binary) : Binary :=
  { b with mantissa := b.mantissa / b.denominator * b.denominator }

/-- The bits of a double that holds the value exactly, for a mantissa below `2 ^ 53` and an exponent
from `-1074` to `971`. -/
def toBits (b : Binary) : UInt64 :=
  let shift := min (52 - b.mantissa.log2) (b.exponent + 1074).toNat
  let mantissa := b.mantissa * Nat.pow 2 shift
  let magnitude :=
    if mantissa < leadingBit then mantissa
    else (b.exponent - shift + 1075).toNat * leadingBit + (mantissa - leadingBit)
  UInt64.ofNat (if b.negative then signBit + magnitude else magnitude)

/-- The remainder of two magnitudes, with the sign of the dividend. It is a multiple of the smaller
of the two units and less than the divisor, so no rounding takes place. -/
def remainder (x y : Binary) : Binary :=
  let unit := min x.exponent y.exponent
  let dividend := x.mantissa * Nat.pow 2 (x.exponent - unit).toNat
  let divisor := y.mantissa * Nat.pow 2 (y.exponent - unit).toNat
  ⟨x.negative, dividend % divisor, unit⟩

end Binary
end PixelCode
