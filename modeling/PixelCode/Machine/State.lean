import PixelCode.Machine.Slots
import PixelCode.Machine.Stack

/-! The state of the machine between two instructions. -/
namespace PixelCode

structure Scope where
  clause : Nat
  depth : Nat
  calls : Nat
  /-- The types of the clause of this scope that was executed last. -/
  accepts : List UInt8
  /-- Whether an exception was already routed to this scope. It takes no second one. -/
  spent : Bool
  deriving DecidableEq, Repr

structure Machine where
  pc : Nat
  stack : Stack
  vars : Slots Float
  functions : Slots Nat
  calls : Array Nat
  scopes : List Scope
  /-- Whether control is on its way to the clause that accepted an exception. -/
  unwinding : Bool

namespace Machine

def initial : Machine where
  pc := 0
  stack := .empty
  vars := .empty
  functions := .empty
  calls := #[]
  scopes := []
  unwinding := false

/-- Every run starts from the initial state, whatever an earlier run left. -/
def reset (_ : Machine) : Machine := initial

end Machine
end PixelCode
