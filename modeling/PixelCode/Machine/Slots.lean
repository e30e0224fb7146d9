/-! Tables with one slot for each byte. -/
namespace PixelCode

structure Slots (α : Type) where
  cells : Vector (Option α) 256

namespace Slots

variable {α : Type}

def empty : Slots α := ⟨Vector.replicate 256 none⟩

def get? (s : Slots α) (id : UInt8) : Option α := s.cells.get id.toFin

def set (s : Slots α) (id : UInt8) (a : α) : Slots α :=
  ⟨s.cells.set id.toNat (some a) id.toNat_lt⟩

def entries (s : Slots α) : List (UInt8 × α) :=
  (List.range 256).filterMap fun id =>
    (s.get? (UInt8.ofNat id)).map fun a => (UInt8.ofNat id, a)

end Slots
end PixelCode
