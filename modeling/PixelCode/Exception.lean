/-! Exceptions that a program can raise and catch. -/
namespace PixelCode

structure Exception where
  code : UInt8
  deriving DecidableEq, Repr

namespace Exception

def divisionByZero : Exception := ⟨1⟩

def name (e : Exception) : String :=
  if e = divisionByZero then "DivisionByZero" else "UNKNOWN_EXCEPTION"

def ofName? (name : String) : Option Exception :=
  if name.map Char.toLower = "divisionbyzero" then some divisionByZero else none

end Exception
end PixelCode
