/-! Places that take the text of a run, and may refuse it. -/
namespace PixelCode

structure Sink where
  received : Array UInt8
  room : Option Nat
  refusal : String
  flushFailure : Option String

namespace Sink

def unlimited : Sink := ⟨#[], none, "", none⟩

/-- Writes bytes. Of bytes that do not fit, those that do arrive and the reason is returned. -/
def write (s : Sink) (bytes : Array UInt8) : Sink × Option String :=
  match s.room with
  | none => ({ s with received := s.received ++ bytes }, none)
  | some room =>
    if bytes.size ≤ room then
      ({ s with received := s.received ++ bytes, room := some (room - bytes.size) }, none)
    else
      ({ s with received := s.received ++ bytes.take room, room := some 0 }, some s.refusal)

def writeText (s : Sink) (text : String) : Sink × Option String := s.write text.toUTF8.data

end Sink
end PixelCode
