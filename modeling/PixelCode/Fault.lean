import PixelCode.Exception
import PixelCode.Number.Text
import PixelCode.Opcode
import PixelCode.Text.Digits

/-! Faults: what can end a run before its time, and how it is reported. -/
namespace PixelCode

namespace Fault

inductive Cause where
  | stackUnderflow
  | missingOperand
  | undefinedVariable
  | undefinedFunction
  | missingReturn
  | misplacedClause
  | missingClause
  | unendedClause
  | unhandled (e : Exception)
  deriving DecidableEq, Repr

def Cause.name : Cause → String
  | stackUnderflow => "StackUnderflow"
  | missingOperand => "MissingOperand"
  | undefinedVariable => "UndefinedVariable"
  | undefinedFunction => "UndefinedFunction"
  | missingReturn => "MissingReturn"
  | misplacedClause => "MisplacedCatch"
  | missingClause => "MissingCatch"
  | unendedClause => "MissingCatchOrEndTry"
  | unhandled _ => "UnhandledException"

def Cause.text (cause : Cause) : String :=
  match cause with
  | unhandled e => s!"{cause.name} ({e.name})"
  | _ => cause.name

end Fault

/-- A fault with the instruction that failed, the position of the last byte it consumed, and the
operand stack it left, bottom first. -/
structure Fault where
  cause : Fault.Cause
  opcode : UInt8
  pc : Nat
  stack : List Float

namespace Fault

def message (f : Fault) : String :=
  let byte := String.ofList (Text.hexByte f.opcode)
  let values := ", ".intercalate (f.stack.map Number.text)
  s!"InterpreterError: {f.cause.text} during {Opcode.nameOf f.opcode} (0x{byte}) operation" ++
    s!" at pc={f.pc}\n\t[{values}]"

end Fault
end PixelCode
