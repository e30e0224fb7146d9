import PixelCode.Opcode

/-! Programs as bytes, and the linear walk over their instructions. -/
namespace PixelCode

structure Program where
  bytes : Array UInt8
  deriving DecidableEq

namespace Program

def ofList (bytes : List UInt8) : Program := ⟨bytes.toArray⟩

def toList (p : Program) : List UInt8 := p.bytes.toList

def size (p : Program) : Nat := p.bytes.size

def byte? (p : Program) (pc : Nat) : Option UInt8 := p.bytes[pc]?

theorem lt_size_of_byte? {p : Program} {pc : Nat} {b : UInt8} (h : p.byte? pc = some b) :
    pc < p.size :=
  (Array.getElem?_eq_some_iff.1 h).1

def opcode? (p : Program) (pc : Nat) : Option Opcode := (p.byte? pc).bind Opcode.ofByte?

/-- How many operand bytes belong to the instruction at a position. A clause has a count byte and
as many type bytes; a count byte that is missing counts as zero. -/
def operandCount (p : Program) (pc : Nat) : Nat :=
  match p.opcode? pc with
  | some .clause => 1 + ((p.byte? (pc + 1)).getD 0).toNat
  | some op => op.operands
  | none => 0

/-- The position after the instruction at `pc`. An unknown byte, and a position outside the program,
is stepped over alone. -/
def next (p : Program) (pc : Nat) : Nat := pc + 1 + p.operandCount pc

theorem lt_next (p : Program) (pc : Nat) : pc < p.next pc := by
  unfold next; omega

def walk (p : Program) (pc : Nat) : List Nat :=
  if pc < p.size then pc :: p.walk (p.next pc) else []
termination_by p.size - pc
decreasing_by have := p.lt_next pc; omega

def walkEnd (p : Program) (pc : Nat) : Nat :=
  if pc < p.size then p.walkEnd (p.next pc) else pc
termination_by p.size - pc
decreasing_by have := p.lt_next pc; omega

theorem mem_walk_bounds (p : Program) (pc : Nat) : ∀ q ∈ p.walk pc, pc ≤ q ∧ q < p.size := by
  fun_induction walk p pc with
  | case1 pc h ih =>
    intro q hq
    rcases List.mem_cons.1 hq with rfl | hq
    · exact ⟨Nat.le_refl _, h⟩
    · have := ih q hq
      have := p.lt_next pc
      omega
  | case2 pc h => simp

end Program
end PixelCode
