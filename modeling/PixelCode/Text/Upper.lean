import PixelCode.Text.CaseTable

/-! Full upper-casing: a character may have a longer upper-case form. -/
namespace PixelCode.Text

namespace CaseRun

def capital? (run : CaseRun) (code : Nat) : Option Nat :=
  if run.first ≤ code ∧ code ≤ run.last ∧ (code - run.first) % run.stride = 0 then
    some (run.capital + (code - run.first))
  else none

end CaseRun

def upperBeyondAscii (c : Char) : List Char :=
  match caseExpansions.lookup c.toNat with
  | some codes => codes.map Char.ofNat
  | none =>
    match caseRuns.findSome? (·.capital? c.toNat) with
    | some code => [Char.ofNat code]
    | none => [c]

def upperChar (c : Char) : List Char :=
  if c.toNat < 128 then [c.toUpper] else upperBeyondAscii c

def upper (cs : List Char) : List Char :=
  cs.flatMap upperChar

end PixelCode.Text
