/-! Unsigned numbers as digits in a base up to sixteen. -/
namespace PixelCode.Text

def digit? (base : Nat) (c : Char) : Option Nat :=
  let value :=
    if '0' ≤ c ∧ c ≤ '9' then c.toNat - '0'.toNat
    else if 'a' ≤ c ∧ c ≤ 'f' then c.toNat - 'a'.toNat + 10
    else if 'A' ≤ c ∧ c ≤ 'F' then c.toNat - 'A'.toNat + 10
    else base
  if value < base then some value else none

def continueDigits? (base : Nat) : Nat → List Char → Option Nat
  | acc, [] => some acc
  | acc, c :: cs =>
    match digit? base c with
    | some d => continueDigits? base (acc * base + d) cs
    | none => none

def digits? (base : Nat) : List Char → Option Nat
  | [] => none
  | cs => continueDigits? base 0 cs

/-- The number below `limit` that digits stand for, with at most one plus sign before them. -/
def unsigned? (base limit : Nat) (cs : List Char) : Option Nat :=
  let value? := match cs with
    | '+' :: rest => digits? base rest
    | _ => digits? base cs
  value?.filter (· < limit)

def hexDigit (value : Nat) : Char :=
  if value < 10 then Char.ofNat ('0'.toNat + value) else Char.ofNat ('a'.toNat + (value - 10))

def hexByte (b : UInt8) : List Char :=
  [hexDigit (b.toNat / 16), hexDigit (b.toNat % 16)]

end PixelCode.Text
