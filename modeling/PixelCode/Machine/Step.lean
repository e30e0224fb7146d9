import PixelCode.Machine.Event
import PixelCode.Machine.State
import PixelCode.Number.Arithmetic
import PixelCode.Program.Scope

/-! One instruction of the machine. -/
namespace PixelCode

inductive Step where
  /-- The run goes on in a state, after `text` has been printed. -/
  | next (m : Machine) (events : List Event) (text : String)
  | stop (m : Machine) (events : List Event)
  | fault (m : Machine) (events : List Event) (cause : Fault.Cause)

namespace Step

def after (e : Event) : Step → Step
  | next m events text => next m (e :: events) text
  | stop m events => stop m (e :: events)
  | fault m events cause => fault m (e :: events) cause

def silent (m : Machine) : Step := next m [] ""

end Step

namespace Machine

/-- Reads the operand byte at the program counter, which moves on even if there is none. -/
def withOperand (p : Program) (m : Machine) (k : Machine → UInt8 → Step) : Step :=
  let m' := { m with pc := m.pc + 1 }
  match p.byte? m.pc with
  | some b => k m' b
  | none => .fault m' [] .missingOperand

def withOperands (p : Program) : Nat → Machine → (Machine → List UInt8 → Step) → Step
  | 0, m, k => k m []
  | count + 1, m, k =>
    m.withOperand p fun m b => withOperands p count m fun m bs => k m (b :: bs)

def withTop (m : Machine) (k : Machine → Float → Step) : Step :=
  match m.stack.top? with
  | some v => k { m with stack := m.stack.pop } v
  | none => .fault m [] .stackUnderflow

def push (m : Machine) (v : Float) : Machine := { m with stack := m.stack.push v }

def print (m : Machine) (text : Float → String) : Step :=
  m.withTop fun m v => .next m [] (text v)

def binary (m : Machine) (f : Float → Float → Float) : Step :=
  m.withTop fun m a => m.withTop fun m b => .silent (m.push (f b a))

/-- Routes an exception to the innermost of the given scopes that accepts it. The scopes inside it
are gone; the stacks fall back to their depths at its start. -/
def raiseTo (p : Program) (e : Exception) (m : Machine) : List Scope → Step
  | [] => .fault { m with scopes := [] } [] (.unhandled e)
  | scope :: outer =>
    if scope.spent then raiseTo p e m outer
    else match p.acceptingClause e scope.clause with
      | .error cause => .fault { m with scopes := scope :: outer } [] cause
      | .ok none => raiseTo p e m outer
      | .ok (some target) =>
        let m' := { m with
          pc := target
          stack := m.stack.truncate scope.depth
          calls := m.calls.shrink scope.calls
          scopes := { scope with spent := true } :: outer
          unwinding := true }
        .next m' [.handled target scope.depth] ""

def raise (p : Program) (e : Exception) (m : Machine) : Step :=
  let event := Event.raised e m.pc
  (raiseTo p e m m.scopes).after event

/-- Like `binary`, but a zero divisor raises an exception after both values are taken. -/
def division (p : Program) (m : Machine) (f : Float → Float → Float) : Step :=
  m.withTop fun m a => m.withTop fun m b =>
    if a == 0.0 then m.raise p .divisionByZero else .silent (m.push (f b a))

def store (p : Program) (m : Machine) : Step :=
  m.withOperand p fun m id => m.withTop fun m v =>
    .silent { m with vars := m.vars.set id v }

def load (p : Program) (m : Machine) : Step :=
  m.withOperand p fun m id =>
    match m.vars.get? id with
    | some v => .silent (m.push v)
    | none => .fault m [] .undefinedVariable

def define (p : Program) (m : Machine) : Step :=
  m.withOperand p fun m id =>
    match p.firstReturn? m.pc with
    | some ret =>
      .next { m with functions := m.functions.set id m.pc, pc := ret + 1 }
        [.registered id m.pc] ""
    | none => .fault m [] .missingReturn

def call (p : Program) (m : Machine) : Step :=
  m.withOperand p fun m id =>
    match m.functions.get? id with
    | some entry => .silent { m with calls := m.calls.push m.pc, pc := entry }
    | none => .fault m [] .undefinedFunction

def ret (m : Machine) : Step :=
  match m.calls.back? with
  | some address => .silent { m with calls := m.calls.pop, pc := address }
  | none => .stop m [.returned (m.pc - 1)]

def openTry (p : Program) (m : Machine) : Step :=
  match p.firstClause? m.pc with
  | some clause =>
    .silent { m with scopes := ⟨clause, m.stack.size, m.calls.size, [], false⟩ :: m.scopes }
  | none => .fault m [] .missingClause

/-- Reaches a clause: its body is entered on the way to it from a raised exception, and passed over
otherwise. -/
def clause (p : Program) (m : Machine) : Step :=
  match m.scopes with
  | [] => .fault m [] .misplacedClause
  | scope :: outer =>
    m.withOperand p fun m count => withOperands p count.toNat m fun m accepts =>
      let m' := { m with scopes := { scope with accepts } :: outer }
      if m.unwinding then
        .next { m' with unwinding := false } [.entered m.pc accepts] ""
      else match p.clauseEnd? m.pc with
        | some pc => .silent { m' with pc }
        | none => .fault m' [] .unendedClause

def endTry (m : Machine) : Step :=
  .silent { m with scopes := m.scopes.tail, unwinding := false }

def execute (p : Program) (m : Machine) : Opcode → Step
  | .push => m.withOperand p fun m b => .silent (m.push (Float.ofNat b.toNat))
  | .pop => m.withTop fun m _ => .silent m
  | .dup => m.withTop fun m v => .silent ((m.push v).push v)
  | .add => m.binary fun b a => b + a
  | .sub => m.binary fun b a => b - a
  | .mul => m.binary fun b a => b * a
  | .div => m.division p fun b a => b / a
  | .mod => m.division p Number.remainder
  | .exp => m.binary Float.pow
  | .halt => .stop m [.halted (m.pc - 1)]
  | .store => m.store p
  | .load => m.load p
  | .call => m.call p
  | .ret => m.ret
  | .func => m.define p
  | .printNum => m.print Number.text
  | .printChar => m.print fun v => toString (Number.toChar v)
  | .printlnNum => m.print fun v => Number.text v ++ "\n"
  | .printlnChar => m.print fun v => toString (Number.toChar v) ++ "\n"
  | .openTry => m.openTry p
  | .clause => m.clause p
  | .endTry => m.endTry

def dispatch (p : Program) (m : Machine) (byte : UInt8) : Step :=
  match Opcode.ofByte? byte with
  | some op =>
    let event := Event.dispatched m.pc op m.stack.size
    ({ m with pc := m.pc + 1 }.execute p op).after event
  | none => .next { m with pc := m.pc + 1 } [.skipped m.pc byte] ""

end Machine
end PixelCode
