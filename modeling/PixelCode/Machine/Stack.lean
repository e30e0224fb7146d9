/-! The operand stack. -/
namespace PixelCode

structure Stack where
  items : Array Float

namespace Stack

def empty : Stack := ⟨#[]⟩

def push (s : Stack) (v : Float) : Stack := ⟨s.items.push v⟩

def top? (s : Stack) : Option Float := s.items.back?

def pop (s : Stack) : Stack := ⟨s.items.pop⟩

def pop? (s : Stack) : Option (Float × Stack) := s.top?.map fun v => (v, s.pop)

def size (s : Stack) : Nat := s.items.size

def isEmpty (s : Stack) : Bool := s.items.isEmpty

def truncate (s : Stack) (depth : Nat) : Stack := ⟨s.items.shrink depth⟩

def toList (s : Stack) : List Float := s.items.toList

end Stack
end PixelCode
