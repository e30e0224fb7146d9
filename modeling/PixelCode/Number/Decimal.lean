import PixelCode.Number.Binary

/-! Decimals that read back as a double, sought from few digits to many. -/
namespace PixelCode

structure Decimal where
  coefficient : Nat
  exponent : Int
  deriving DecidableEq, Repr

def digitCount (n : Nat) : Nat :=
  if n = 0 then 0 else digitCount (n / 10) + 1

namespace Decimal

def trim (coefficient : Nat) (exponent : Int) : Decimal :=
  if coefficient ≠ 0 ∧ coefficient % 10 = 0 then trim (coefficient / 10) (exponent + 1)
  else ⟨coefficient, exponent⟩
termination_by coefficient

def digits (d : Decimal) : List Char := Nat.toDigits 10 d.coefficient

def pointPosition (d : Decimal) : Int := d.exponent + d.digits.length

end Decimal

/-- The numbers that round to a given double, in units of a quarter of its last bit: all between
`low` and `high`, and the two ends as well if `closed`. -/
structure RoundingInterval where
  low : Nat
  value : Nat
  high : Nat
  closed : Bool
  unit : Int

namespace RoundingInterval

/-- Below a power of two the doubles lie twice as dense, so the lower half of the interval is
shorter. Ties round to an even mantissa. -/
def ofBinary (b : Binary) : RoundingInterval where
  low := 4 * b.mantissa - if b.mantissa = Binary.leadingBit ∧ -1074 < b.exponent then 1 else 2
  value := 4 * b.mantissa
  high := 4 * b.mantissa + 2
  closed := b.mantissa % 2 = 0
  unit := b.exponent - 2

def contains (r : RoundingInterval) (a b : Nat) : Bool :=
  if r.closed then r.low * b ≤ a && a ≤ r.high * b else r.low * b < a && a < r.high * b

/-- The nearer of the two neighbours of the value among the multiples of `10 ^ exponent` that lie in
the interval; the upper one if both are equally near. -/
def onGrid? (r : RoundingInterval) (exponent : Int) : Option Nat :=
  let ten := Nat.pow 10 exponent.toNat * Nat.pow 2 (-r.unit).toNat
  let two := Nat.pow 2 r.unit.toNat * Nat.pow 10 (-exponent).toNat
  let below := r.value * two / ten
  let above := below + 1
  match r.contains (below * ten) two, r.contains (above * ten) two with
  | true, true => if 2 * (r.value * two) < (below + above) * ten then some below else some above
  | true, false => some below
  | false, true => some above
  | false, false => none

end RoundingInterval

namespace Decimal

def magnitude (b : Binary) : Int :=
  if b.denominator ≤ b.numerator then digitCount (b.numerator / b.denominator)
  else 1 - digitCount ((b.denominator - 1) / b.numerator)

def exact (r : RoundingInterval) : Decimal :=
  trim (r.value * Nat.pow 2 r.unit.toNat * Nat.pow 5 (-r.unit).toNat) (min r.unit 0)

def shortestFrom (r : RoundingInterval) (exponent : Int) : Nat → Decimal
  | 0 => exact r
  | tries + 1 =>
    match r.onGrid? exponent with
    | some coefficient => trim coefficient exponent
    | none => shortestFrom r (exponent - 1) tries

/-- A decimal that reads back as a positive double: the first that is found on grids of one to seventeen digits. -/
def shortest (b : Binary) : Decimal :=
  shortestFrom (.ofBinary b) (magnitude b - 1) 17

end Decimal
end PixelCode
