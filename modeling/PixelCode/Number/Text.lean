import PixelCode.Number.Decimal

/-! How the machine writes numbers. -/
namespace PixelCode

namespace Decimal

/-- The number without exponent: a leading zero before a bare fraction, no point after an integer. -/
def positional (d : Decimal) : List Char :=
  let point := d.pointPosition
  if point ≤ 0 then '0' :: '.' :: (List.replicate (-point).toNat '0' ++ d.digits)
  else if point < d.digits.length then
    d.digits.take point.toNat ++ '.' :: d.digits.drop point.toNat
  else d.digits ++ List.replicate (point.toNat - d.digits.length) '0'

/-- The number with one digit before the point and an exponent that has a sign only if it is negative. -/
def exponential (d : Decimal) : List Char :=
  let exponent := d.pointPosition - 1
  let fraction := d.digits.drop 1
  d.digits.take 1 ++ (if fraction.isEmpty then [] else '.' :: fraction) ++
    'e' :: ((if exponent < 0 then ['-'] else []) ++ Nat.toDigits 10 exponent.natAbs)

end Decimal

namespace Number

/-- Gives the exponent behind the first `e` of a text a plus sign, unless it starts with a minus sign. -/
def signExponent (text : List Char) : List Char :=
  match text.dropWhile (· != 'e') with
  | [] => text
  | _ :: '-' :: _ => text
  | e :: exponent => text.takeWhile (· != 'e') ++ e :: '+' :: exponent

def isPositional (v : Float) : Bool := 1e-6 ≤ v.abs && v.abs < 1e21

def text (v : Float) : String :=
  match Reading.ofFloat v with
  | .nan => "NaN"
  | .infinity negative => if negative then "-Infinity" else "Infinity"
  | .finite b =>
    if b.mantissa = 0 then "0"
    else
      let d := Decimal.shortest b
      let sign := if b.negative then ['-'] else []
      String.ofList (if isPositional v then sign ++ d.positional else signExponent (sign ++ d.exponential))

end Number
end PixelCode
