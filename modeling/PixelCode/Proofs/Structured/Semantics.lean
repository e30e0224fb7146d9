import PixelCode.Fault
import PixelCode.Number.Arithmetic
import PixelCode.Proofs.Structured.Syntax

/-! The meaning of structured programs, without positions: blocks are evaluated to an outcome. -/
namespace PixelCode.Structured

structure State where
  stack : List Float
  vars : UInt8 → Option Float
  /-- The block of the definition that was executed last for each function. -/
  functions : UInt8 → Option (Block false)
  out : String

namespace State

def initial : State := ⟨[], fun _ => none, fun _ => none, ""⟩

def keep (s : State) (depth : Nat) : State :=
  { s with stack := s.stack.drop (s.stack.length - depth) }

end State

/-- How the evaluation of a statement ends. The operation that raised an exception or failed is
named with it. -/
inductive Outcome where
  | normal
  | raised (e : Exception) (op : Opcode)
  | halted
  | faulted (cause : Fault.Cause) (op : Opcode)

namespace State

def withTop (s : State) (op : Opcode) (k : Float → State → Outcome × State) : Outcome × State :=
  match s.stack with
  | [] => (.faulted .stackUnderflow op, s)
  | v :: rest => k v { s with stack := rest }

def push (s : State) (v : Float) : State := { s with stack := v :: s.stack }

def print (s : State) (op : Opcode) (text : Float → String) : Outcome × State :=
  s.withTop op fun v s => (.normal, { s with out := s.out ++ text v })

def binary (s : State) (op : Opcode) (f : Float → Float → Float) : Outcome × State :=
  s.withTop op fun a s => s.withTop op fun b s => (.normal, s.push (f b a))

/-- Like `binary`, but with a zero on top the two values are gone and an exception is raised. -/
def division (s : State) (op : Opcode) (f : Float → Float → Float) : Outcome × State :=
  s.withTop op fun a s => s.withTop op fun b s =>
    if a == 0.0 then (.raised .divisionByZero op, s) else (.normal, s.push (f b a))

end State

def Atom.run (a : Atom) (s : State) : Outcome × State :=
  match a with
  | unknown _ _ => (.normal, s)
  | push n => (.normal, s.push (Float.ofNat n.toNat))
  | pop => s.withTop .pop fun _ s => (.normal, s)
  | dup => s.withTop .dup fun v s => (.normal, (s.push v).push v)
  | add => s.binary .add fun b a => b + a
  | sub => s.binary .sub fun b a => b - a
  | mul => s.binary .mul fun b a => b * a
  | div => s.division .div fun b a => b / a
  | mod => s.division .mod Number.remainder
  | exp => s.binary .exp Float.pow
  | halt => (.halted, s)
  | store id => s.withTop .store fun v s =>
    (.normal, { s with vars := fun i => if i = id then some v else s.vars i })
  | load id =>
    match s.vars id with
    | some v => (.normal, s.push v)
    | none => (.faulted .undefinedVariable .load, s)
  | printNum => s.print .printNum Number.text
  | printChar => s.print .printChar fun v => toString (Number.toChar v)
  | printlnNum => s.print .printlnNum fun v => Number.text v ++ "\n"
  | printlnChar => s.print .printlnChar fun v => toString (Number.toChar v) ++ "\n"

mutual

/-- `st.Eval s o s'`: the statement takes `s` to `s'` with outcome `o`. -/
inductive Stmt.Eval : {defs : Bool} → Stmt defs → State → Outcome → State → Prop where
  | atom {defs : Bool} (a : Atom) (s : State) :
      Stmt.Eval (.atom a : Stmt defs) s (a.run s).1 (a.run s).2
  | define (id : UInt8) (body : Block false) (s : State) :
      Stmt.Eval (.define id body) s .normal
        { s with functions := fun i => if i = id then some body else s.functions i }
  | undefined {defs : Bool} {id : UInt8} {s : State} (h : s.functions id = none) :
      Stmt.Eval (.call id : Stmt defs) s (.faulted .undefinedFunction .call) s
  /-- A call runs the block of the function, also if that raises, halts or fails. -/
  | call {defs : Bool} {id : UInt8} {body : Block false} {s s' : State} {o : Outcome}
      (h : s.functions id = some body) (run : body.Eval s o s') :
      Stmt.Eval (.call id : Stmt defs) s o s'
  | attempt {defs : Bool} {body handler : Block defs} {types : Types} {others : Clauses defs}
      {s s' : State} {o : Outcome} (run : body.Eval s o s') (h : ∀ e op, o ≠ .raised e op) :
      Stmt.Eval (.attempt body types handler others) s o s'
  /-- An exception that no clause accepts passes outward, with the stack as it is. -/
  | uncaught {defs : Bool} {body handler : Block defs} {types : Types} {others : Clauses defs}
      {s s' : State} {e : Exception} {op : Opcode} (run : body.Eval s (.raised e op) s')
      (h : (Clauses.cons types handler others).select e = none) :
      Stmt.Eval (.attempt body types handler others) s (.raised e op) s'
  /-- The first clause that accepts an exception runs its block on what is left of the stack that
  the scope started with. What that block raises passes outward. -/
  | caught {defs : Bool} {body handler taken : Block defs} {types : Types}
      {others : Clauses defs} {s s₁ s₂ : State} {e : Exception} {op : Opcode} {o : Outcome}
      (run : body.Eval s (.raised e op) s₁)
      (h : (Clauses.cons types handler others).select e = some taken)
      (handle : taken.Eval (s₁.keep s.stack.length) o s₂) :
      Stmt.Eval (.attempt body types handler others) s o s₂

/-- `b.Eval s o s'`: the statements of the block, one after another, take `s` to `s'`. -/
inductive Block.Eval : {defs : Bool} → Block defs → State → Outcome → State → Prop where
  | nil {defs : Bool} (s : State) : Block.Eval (.nil : Block defs) s .normal s
  | cons {defs : Bool} {first : Stmt defs} {rest : Block defs} {s s₁ s₂ : State} {o : Outcome}
      (run : first.Eval s .normal s₁) (on : rest.Eval s₁ o s₂) :
      Block.Eval (.cons first rest) s o s₂
  | leave {defs : Bool} {first : Stmt defs} {rest : Block defs} {s s' : State} {o : Outcome}
      (run : first.Eval s o s') (h : o ≠ .normal) :
      Block.Eval (.cons first rest) s o s'

end

end PixelCode.Structured
