import PixelCode.Proofs.Machine.Path
import PixelCode.Proofs.Structured.Layout
import PixelCode.Proofs.Structured.Semantics

/-! How the machine stands for a structured state, and the ways in which it leaves a statement. -/
namespace PixelCode

def Step.behind (before : List Event) : Step → Step
  | next m events text => next m (before ++ events) text
  | stop m events => stop m (before ++ events)
  | fault m events cause => fault m (before ++ events) cause

private theorem Step.after_behind (step : Step) (e : Event) (before : List Event) :
    (step.behind before).after e = step.behind (e :: before) := by
  cases step <;> rfl

private theorem Step.after_eq_behind (step : Step) (e : Event) :
    step.after e = step.behind [e] := by
  cases step <;> rfl

namespace Structured
open Program Machine

structure Control where
  pc : Nat
  calls : Array Nat
  scopes : List Scope

def FunctionAt (p : Program) (pc : Nat) (body : Block false) : Prop :=
  p.HoldsAt pc (body.flatten ++ [Opcode.ret.byte])

structure Represents (p : Program) (m : Machine) (out : String) (s : State) : Prop where
  stack : m.stack.toList = s.stack.reverse
  vars : ∀ id, m.vars.get? id = s.vars id
  functions : ∀ id, Option.Rel (FunctionAt p) (m.functions.get? id) (s.functions id)
  printed : s.out = out

/-- The machine stands for a state, and control is at a place and on its way to no clause. -/
structure Stands (p : Program) (c : Control) (m : Machine) (out : String) (s : State) : Prop
    extends Represents p m out s where
  pc : m.pc = c.pc
  calls : m.calls = c.calls
  scopes : m.scopes = c.scopes
  settled : m.unwinding = false

/-- What the last instruction of a statement leads to: control comes to the place where the
statement ends, or the instruction raises, halts or fails. Of the scopes, a raised exception is
left to those around the statement. -/
inductive Yields (p : Program) (c : Control) (op : Opcode) (out : String) :
    Step → Outcome → State → Prop where
  | next {m : Machine} {events : List Event} {text : String} {s : State}
      (h : Stands p c m (out ++ text) s) : Yields p c op out (.next m events text) .normal s
  | raise {m : Machine} {e : Exception} {s : State} (before : List Event)
      (h : Represents p m out s) (calls : c.calls.toList <+: m.calls.toList) :
      Yields p c op out ((raiseTo p e m c.scopes).behind before) (.raised e op) s
  | stop {m : Machine} {events : List Event} {s : State} (h : Represents p m out s) :
      Yields p c op out (.stop m events) .halted s
  | fault {m : Machine} {events : List Event} {cause : Fault.Cause} {s : State}
      (h : Represents p m out s) : Yields p c op out (.fault m events cause) (.faulted cause op) s

def Goes (p : Program) (n : Nat) (m : Machine) (out : String) (c : Control) (s : State) : Prop :=
  ∃ events text m', Path p n m events text m' ∧ Stands p c m' (out ++ text) s

/-- The machine comes to the place where a statement ends, or to an instruction that leaves it. -/
inductive Leaves (p : Program) (c : Control) (m : Machine) (out : String) :
    Outcome → State → Prop where
  | stand {n : Nat} {s : State} (h : Goes p n m out c s) : Leaves p c m out .normal s
  | leave {n : Nat} {events : List Event} {text : String} {m' : Machine} {o : Outcome} {s : State}
      {op : Opcode} (path : Path p n m events text m') (fetch : p.byte? m'.pc = some op.byte)
      (abrupt : o ≠ .normal) (h : Yields p c op (out ++ text) (m'.dispatch p op.byte) o s) :
      Leaves p c m out o s

variable {p : Program} {c c' : Control} {op : Opcode} {m : Machine} {out : String}
  {s s' : State} {o : Outcome}

theorem Stands.move (h : Stands p c m out s) (pc : Nat) :
    Stands p { c with pc } { m with pc } out s :=
  { h with pc := rfl }

theorem Represents.push (h : Represents p m out s) (v : Float) :
    Represents p (m.push v) out (s.push v) :=
  { h with stack := by simp [Machine.push, State.push, h.stack] }

theorem Stands.push (h : Stands p c m out s) (v : Float) : Stands p c (m.push v) out (s.push v) :=
  { h with toRepresents := h.toRepresents.push v }

/-- Taking the top of the stack is the same on both sides. -/
theorem Yields.withTop {k : Machine → Float → Step} {k' : Float → State → Outcome × State}
    (h : Stands p c m out s)
    (hk : ∀ {m s} v, Stands p c m out s → Yields p c op out (k m v) (k' v s).1 (k' v s).2) :
    Yields p c op out (m.withTop k) (s.withTop op k').1 (s.withTop op k').2 := by
  unfold Machine.withTop State.withTop
  rw [Stack.top?_eq, h.stack]
  cases hs : s.stack with
  | nil => exact .fault h.toRepresents
  | cons v rest =>
    rw [List.getLast?_reverse, List.head?_cons]
    refine hk v { h with stack := ?_ }
    simp [h.stack, hs]

theorem Yields.after {step : Step} (h : Yields p c op out step o s) (e : Event) :
    Yields p c op out (step.after e) o s := by
  cases h with
  | next h => exact .next h
  | raise before h calls =>
    rw [Step.after_behind]
    exact .raise (e :: before) h calls
  | stop h => exact .stop h
  | fault h => exact .fault h

/-- Nothing is printed by an instruction that only changes the state. -/
theorem Yields.silent (h : Stands p c m out s) : Yields p c op out (.silent m) .normal s :=
  .next (by simpa using h)

theorem Yields.print {text : Float → String} (h : Stands p c m out s) :
    Yields p c op out (m.print text) (s.print op text).1 (s.print op text).2 :=
  .withTop h fun v h => .next { h with printed := congrArg (· ++ text v) h.printed }

theorem Yields.binary {f : Float → Float → Float} (h : Stands p c m out s) :
    Yields p c op out (m.binary f) (s.binary op f).1 (s.binary op f).2 :=
  .withTop h fun a h => .withTop h fun b h => .silent (h.push (f b a))

theorem Yields.division {f : Float → Float → Float} (h : Stands p c m out s) :
    Yields p c op out (m.division p f) (s.division op f).1 (s.division op f).2 := by
  refine .withTop h fun a h => .withTop h fun {m s} b h => ?_
  by_cases hzero : (a == 0.0) = true
  · rw [if_pos hzero, if_pos hzero]
    rw [Machine.raise, h.scopes, Step.after_eq_behind]
    exact .raise [.raised .divisionByZero m.pc] h.toRepresents (h.calls ▸ List.prefix_refl _)
  · rw [if_neg hzero, if_neg hzero]
    exact .silent (h.push (f b a))

theorem Yields.withOperand {k : Machine → UInt8 → Step} {b : UInt8}
    (hb : p.byte? m.pc = some b) (h : Yields p c op out (k { m with pc := m.pc + 1 } b) o s) :
    Yields p c op out (m.withOperand p k) o s := by
  rw [Machine.withOperand, hb]
  exact h

section Sequencing
variable {n k : Nat} {events : List Event} {text : String} {m₁ : Machine}

theorem Goes.after_path (path : Path p n m events text m₁) (h : Goes p k m₁ (out ++ text) c s) :
    Goes p (n + k) m out c s := by
  obtain ⟨rest, more, m₂, hrest, hstands⟩ := h
  exact ⟨_, _, m₂, path.trans hrest, by rwa [← String.append_assoc]⟩

theorem Leaves.after_path (path : Path p n m events text m₁)
    (h : Leaves p c m₁ (out ++ text) o s) : Leaves p c m out o s := by
  cases h with
  | stand h => exact .stand (h.after_path path)
  | leave rest fetch abrupt h =>
    rw [String.append_assoc] at h
    exact .leave (path.trans rest) fetch abrupt h

/-- What follows the normal end of a statement comes after it. -/
theorem Leaves.andThen (h : Leaves p c m out .normal s)
    (hthen : ∀ {m out}, Stands p c m out s → Leaves p c' m out o s') : Leaves p c' m out o s' := by
  cases h with
  | stand h =>
    obtain ⟨events, text, m', path, hstands⟩ := h
    exact (hthen hstands).after_path path
  | leave _ _ abrupt _ => exact absurd rfl abrupt

theorem Goes.andThen (h : Goes p n m out c s)
    (hthen : ∀ {m out}, Stands p c m out s → Leaves p c' m out o s') : Leaves p c' m out o s' :=
  (Leaves.stand h).andThen hthen

/-- The exits of a statement, as those of a larger statement with fewer calls and scopes around. -/
theorem Leaves.widen (h : Leaves p c m out o s)
    (hnormal : o = .normal → ∀ {m out}, Stands p c m out s → Leaves p c' m out o s)
    (hcalls : c'.calls.toList <+: c.calls.toList)
    (hraise : ∀ e op, o = .raised e op → ∀ m, raiseTo p e m c.scopes = raiseTo p e m c'.scopes) :
    Leaves p c' m out o s := by
  cases h with
  | stand h => exact h.andThen (hnormal rfl)
  | leave path fetch abrupt h =>
    refine .leave path fetch abrupt ?_
    generalize Machine.dispatch _ _ _ = step at h
    cases h with
    | next h => exact absurd rfl abrupt
    | raise before h calls =>
      rw [hraise _ _ rfl]
      exact .raise before h (hcalls.trans calls)
    | stop h => exact .stop h
    | fault h => exact .fault h

end Sequencing

section Execution

private theorem dispatch_byte (m : Machine) (op : Opcode) :
    m.dispatch p op.byte =
      ({ m with pc := m.pc + 1 }.execute p op).after (.dispatched m.pc op m.stack.size) := by
  rw [dispatch, Opcode.ofByte?_byte]

theorem Leaves.of_execute (fetch : p.byte? m.pc = some op.byte)
    (h : Yields p c op out ({ m with pc := m.pc + 1 }.execute p op) o s) :
    Leaves p c m out o s := by
  have h := h.after (.dispatched m.pc op m.stack.size)
  rw [← dispatch_byte] at h
  by_cases hnormal : o = .normal
  · subst hnormal
    generalize hstep : m.dispatch p op.byte = step at h
    cases h with
    | next h => exact .stand ⟨_, _, _, .one fetch hstep, h⟩
  · exact .leave (.refl m) fetch hnormal (by simpa using h)

theorem Goes.of_execute {m' : Machine} {events : List Event} (fetch : p.opcode? m.pc = some op)
    (hstep : { m with pc := m.pc + 1 }.execute p op = .next m' events "")
    (h : Stands p c m' out s) : Goes p 1 m out c s := by
  refine ⟨.dispatched m.pc op m.stack.size :: events, "", m',
    .one (byte?_of_opcode? fetch) ?_, by simpa using h⟩
  rw [dispatch_byte, hstep]
  rfl

theorem withOperand_of_byte? {k : Machine → UInt8 → Step} {b : UInt8}
    (hb : p.byte? m.pc = some b) : m.withOperand p k = k { m with pc := m.pc + 1 } b := by
  rw [withOperand, hb]

theorem withOperands_of_holdsAt {bytes : List UInt8} {k : Machine → List UInt8 → Step}
    (h : p.HoldsAt m.pc bytes) :
    withOperands p bytes.length m k = k { m with pc := m.pc + bytes.length } bytes := by
  induction bytes generalizing m k with
  | nil => rfl
  | cons b bytes ih =>
    rw [List.length_cons, withOperands, withOperand_of_byte? h.1]
    have hrest : p.HoldsAt { m with pc := m.pc + 1 }.pc bytes := h.2
    rw [ih hrest]
    simp only [Nat.add_assoc, Nat.add_comm 1]

/-- A statement that is an atom is left as the atom says. -/
theorem Atom.leaves {a : Atom} (h : Stands p c m out s) (hbytes : p.HoldsAt c.pc a.bytes) :
    Leaves p { c with pc := c.pc + a.bytes.length } m out (a.run s).1 (a.run s).2 := by
  rw [← h.pc] at hbytes ⊢
  have hpast := h.move (m.pc + 1)
  have hpast₂ := h.move (m.pc + 2)
  cases a with
  | unknown b hb =>
    refine .stand (n := 1) ⟨_, "", _, .one hbytes.1 (by rw [dispatch, hb]), ?_⟩
    rw [String.append_empty]
    exact hpast
  | push v =>
    refine .of_execute hbytes.1 ?_
    simp only [execute, Atom.run]
    exact .withOperand hbytes.2.1 (.silent (hpast₂.push _))
  | pop =>
    refine .of_execute hbytes.1 ?_
    simp only [execute, Atom.run]
    exact .withTop hpast fun v h => .silent h
  | dup =>
    refine .of_execute hbytes.1 ?_
    simp only [execute, Atom.run]
    exact .withTop hpast fun v h => .silent ((h.push v).push v)
  | add => exact .of_execute hbytes.1 (.binary hpast)
  | sub => exact .of_execute hbytes.1 (.binary hpast)
  | mul => exact .of_execute hbytes.1 (.binary hpast)
  | div => exact .of_execute hbytes.1 (.division hpast)
  | mod => exact .of_execute hbytes.1 (.division hpast)
  | exp => exact .of_execute hbytes.1 (.binary hpast)
  | halt => exact .of_execute hbytes.1 (.stop hpast.toRepresents)
  | store id =>
    refine .of_execute hbytes.1 ?_
    simp only [execute, Atom.run]
    refine .withOperand hbytes.2.1 (.withTop hpast₂ fun v h => .silent ?_)
    exact { h with vars := fun i => by simp only [Slots.get?_set, h.vars] }
  | load id =>
    refine .of_execute hbytes.1 ?_
    simp only [execute, Atom.run]
    refine .withOperand hbytes.2.1 ?_
    rw [h.vars]
    cases s.vars id with
    | none => exact .fault hpast₂.toRepresents
    | some v => exact .silent (hpast₂.push v)
  | printNum => exact .of_execute hbytes.1 (.print hpast)
  | printChar => exact .of_execute hbytes.1 (.print hpast)
  | printlnNum => exact .of_execute hbytes.1 (.print hpast)
  | printlnChar => exact .of_execute hbytes.1 (.print hpast)

end Execution

end Structured
end PixelCode
