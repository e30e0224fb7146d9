import PixelCode.Fault

/-! What a run reports about itself while it goes on. -/
namespace PixelCode

inductive Level where
  | error | warn | info | debug | trace
  deriving DecidableEq, Repr

namespace Level

def rank : Level → Nat
  | error => 1
  | warn => 2
  | info => 3
  | debug => 4
  | trace => 5

def name : Level → String
  | error => "ERROR"
  | warn => "WARN"
  | info => "INFO"
  | debug => "DEBUG"
  | trace => "TRACE"

end Level

inductive Field where
  | number (n : Nat)
  | plain (s : String)
  | quoted (s : String)
  deriving DecidableEq, Repr

/-- The events of a run. Positions named `pc` are those of the operation byte unless said
otherwise. -/
inductive Event where
  | started (size : Nat)
  | dispatched (pc : Nat) (op : Opcode) (depth : Nat)
  | skipped (pc : Nat) (byte : UInt8)
  | halted (pc : Nat)
  | returned (pc : Nat)
  | registered (id : UInt8) (entry : Nat)
  /-- An exception was raised; `pc` is the position after the operation. -/
  | raised (e : Exception) (pc : Nat)
  /-- A scope took an exception; `depth` is the stack depth it had at its start. -/
  | handled (target depth : Nat)
  /-- A clause body begins; `pc` is the position after the type bytes. -/
  | entered (pc : Nat) (accepts : List UInt8)
  | faulted (cause : Fault.Cause) (pc : Nat)
  | finished (pc depth : Nat)
  deriving DecidableEq, Repr

namespace Event

def level : Event → Level
  | dispatched .. => .trace
  | skipped .. => .trace
  | _ => .debug

def message : Event → String
  | started .. => "run started"
  | dispatched .. => "dispatch"
  | skipped .. => "skipping unknown byte"
  | halted .. => "halt"
  | returned .. => "top-level return"
  | registered .. => "function registered"
  | raised .. => "raise"
  | handled .. => "exception handled"
  | entered .. => "entering catch body"
  | faulted .. => "fault"
  | finished .. => "run finished"

def codesText (codes : List UInt8) : String :=
  "[" ++ ", ".intercalate (codes.map fun c => toString c.toNat) ++ "]"

def fields : Event → List (String × Field)
  | started size => [("len", .number size)]
  | dispatched pc op depth => [("pc", .number pc), ("op", .quoted op.mnemonic), ("depth", .number depth)]
  | skipped pc byte => [("pc", .number pc), ("byte", .number byte.toNat)]
  | halted pc => [("pc", .number pc)]
  | returned pc => [("pc", .number pc)]
  | registered id entry => [("id", .number id.toNat), ("entry", .number entry)]
  | raised e pc => [("exception", .plain e.name), ("pc", .number pc)]
  | handled target depth => [("target", .number target), ("stack_depth", .number depth)]
  | entered pc accepts => [("pc", .number pc), ("accepts", .plain (codesText accepts))]
  | faulted cause pc => [("kind", .plain cause.name), ("pc", .number pc)]
  | finished pc depth => [("pc", .number pc), ("depth", .number depth)]

end Event

/-- The finest level that is recorded; none records nothing. -/
abbrev Filter := Option Level

def Filter.admits (filter : Filter) (level : Level) : Bool :=
  filter.any fun finest => level.rank ≤ finest.rank

structure Trace where
  filter : Filter
  events : Array Event

namespace Trace

def start (filter : Filter) : Trace := ⟨filter, #[]⟩

def record (t : Trace) (events : List Event) : Trace :=
  { t with events := t.events ++ events.filter fun e => t.filter.admits e.level }

end Trace
end PixelCode
