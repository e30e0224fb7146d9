import PixelCode.Proofs.Structured.Simulation

/-! The runs of a structured program are exactly its evaluations. -/
namespace PixelCode.Structured
open Program Machine

/-- How a run ends after an outcome, with `stack` as what a fault reports of the operand stack. An
exception that leaves the program is a fault of the operation that raised it. -/
inductive EndsAs (stack : List Float) : Outcome → Ending → Prop where
  | normal : EndsAs stack .normal .finished
  | halted : EndsAs stack .halted .finished
  | raised (e : Exception) (op : Opcode) (pc : Nat) :
      EndsAs stack (.raised e op) (.faulted ⟨.unhandled e, op.byte, pc, stack⟩)
  | faulted (cause : Fault.Cause) (op : Opcode) (pc : Nat) :
      EndsAs stack (.faulted cause op) (.faulted ⟨cause, op.byte, pc, stack⟩)

structure Agrees (p : Program) (r : Run) (o : Outcome) (s : State) : Prop where
  machine : Represents p r.machine s.out s
  printed : r.out.received = s.out.toUTF8.data
  ending : EndsAs s.stack.reverse o r.ending
  closed : o = .normal → r.machine.calls = #[] ∧ r.machine.scopes = []

variable {p : Program} {c : Control} {m : Machine} {out : String} {s s' : State} {o : Outcome}
  {n fuel : Nat}

theorem Represents.agrees {text : String} {r : Run} (h : Represents p r.machine ("" ++ text) s)
    (hout : r.out = Sink.unlimited.append text) (hending : EndsAs s.stack.reverse o r.ending)
    (hclosed : o = .normal → r.machine.calls = #[] ∧ r.machine.scopes = []) : Agrees p r o s := by
  have hprinted : s.out = text := by simpa using h.printed
  refine ⟨{ h with printed := rfl }, ?_, hending, hclosed⟩
  rw [hout, hprinted]
  simp [Sink.append, Sink.unlimited]

private theorem runFrom_of_fault {b : UInt8} {m' : Machine} {events : List Event}
    {cause : Fault.Cause}
    (fetch : p.byte? m.pc = some b) (hstep : m.dispatch p b = .fault m' events cause)
    (fuel : Nat) (sink : Sink) (trace : Trace) :
    runFrom p (fuel + 1) m sink trace =
      some ⟨m', sink, trace.record (events ++ [.faulted cause (m'.pc - 1)]),
        .faulted ⟨cause, b, m'.pc - 1, m'.stack.toList⟩⟩ := by
  rw [runFrom, fetch]
  simp only [hstep]

/-- Once the whole program is left, the run is over and agrees. -/
theorem Leaves.run_agrees (h : Leaves p ⟨p.size, #[], []⟩ m "" o s) (trace : Trace) :
    ∃ r, Agrees p r o s ∧ (∃ fuel, runFrom p fuel m .unlimited trace = some r) ∧
      ∀ {fuel r'}, runFrom p fuel m .unlimited trace = some r' → r' = r := by
  cases h with
  | stand h =>
    obtain ⟨events, text, m', path, h⟩ := h
    have hover : p.byte? m'.pc = none := by rw [h.pc]; exact Array.getElem?_size
    refine ⟨m'.finish (Sink.unlimited.append text) (trace.record events), ?_,
      path.runFrom_result rfl fun fuel => by rw [runFrom, hover]⟩
    exact h.toRepresents.agrees rfl .normal fun _ => ⟨h.calls, h.scopes⟩
  | @leave n events text m' _ _ op path fetch abrupt h =>
    generalize hstep : m'.dispatch p op.byte = step at h
    cases h with
    | next h => exact absurd rfl abrupt
    | @raise m₂ e _ before h _ =>
      rw [raiseTo, Step.behind] at hstep
      refine ⟨_, ?_, path.runFrom_result rfl fun fuel => runFrom_of_fault fetch hstep fuel _ _⟩
      refine Represents.agrees { h with } rfl ?_ fun ho => absurd ho abrupt
      rw [← h.stack]
      exact .raised e op _
    | @stop m₂ last _ h =>
      refine ⟨m₂.finish (Sink.unlimited.append text) ((trace.record events).record last), ?_,
        path.runFrom_result rfl fun fuel => by rw [runFrom, fetch]; simp only [hstep]⟩
      exact h.agrees rfl .halted fun ho => absurd ho abrupt
    | @fault m₂ last cause _ h =>
      refine ⟨_, ?_, path.runFrom_result rfl fun fuel => runFrom_of_fault fetch hstep fuel _ _⟩
      refine h.agrees rfl ?_ fun ho => absurd ho abrupt
      rw [← h.stack]
      exact .faulted cause op _

def Ends (p : Program) (fuel : Nat) (m : Machine) : Prop :=
  ∃ out trace r, out.room = none ∧ runFrom p fuel m out trace = some r

theorem Goes.ends (h : Goes p n m out c s) (hends : Ends p fuel m) :
    ∃ k m' out', fuel = n + k ∧ Ends p k m' ∧ Stands p c m' out' s := by
  obtain ⟨events, text, m', path, hstands⟩ := h
  obtain ⟨sink, trace, r, hroom, hrun⟩ := hends
  obtain ⟨k, hfuel, hrest⟩ := path.runFrom_eq_some hroom hrun
  exact ⟨k, m', _, hfuel, ⟨sink.append text, _, r, hroom, hrest⟩, hstands⟩

theorem Leaves.ends (h : Leaves p c m out .normal s) (hends : Ends p fuel m) :
    ∃ k m' out', k ≤ fuel ∧ Ends p k m' ∧ Stands p c m' out' s := by
  cases h with
  | stand h =>
    obtain ⟨k, m', out', hfuel, hrest⟩ := h.ends hends
    exact ⟨k, m', out', by omega, hrest⟩
  | leave _ _ abrupt _ => exact absurd rfl abrupt

mutual

/-- A statement in whose execution the run ends has an evaluation. -/
theorem Stmt.exists_eval {defs : Bool} (st : Stmt defs) {c : Control} {m : Machine} {out : String}
    {s : State} (fuel : Nat) (h : Stands p c m out s) (hbytes : p.HoldsAt c.pc st.flatten)
    (hends : Ends p fuel m) : ∃ o s', st.Eval s o s' := by
  match st with
  | .atom a => exact ⟨_, _, .atom a s⟩
  | .define id body => exact ⟨_, _, .define id body s⟩
  | .call id =>
    cases hbody : s.functions id with
    | none => exact ⟨_, _, .undefined hbody⟩
    | some body =>
      obtain ⟨entry, hfunction, hgoes⟩ := Stmt.goes_call h hbytes hbody
      obtain ⟨k, m', out', hfuel, hends, h⟩ := hgoes.ends hends
      obtain ⟨o, s', run⟩ := body.exists_eval k h (holdsAt_append.1 hfunction).1 hends
      exact ⟨o, s', .call hbody run⟩
  | .attempt body types handler others =>
    obtain ⟨-, hbody, hclauses⟩ := Stmt.located_attempt hbytes
    obtain ⟨k, m₁, out₁, hfuel, hends, h⟩ := (Stmt.goes_openTry h hbytes).ends hends
    obtain ⟨o, s₁, run⟩ := body.exists_eval k h hbody hends
    by_cases ho : ∃ e op, o = .raised e op
    · obtain ⟨e, op, rfl⟩ := ho
      cases hselect : (Clauses.cons types handler others).select e with
      | none => exact ⟨_, s₁, .uncaught run hselect⟩
      | some taken =>
        obtain ⟨target, types', rest, htarget, hscope, -⟩ :=
          Clauses.acceptingClause_of_select_some _ hclauses hselect
        obtain ⟨htypes, hhandler, -⟩ := Clauses.located_scope hscope
        obtain ⟨k', m₂, out₂, hle, hends, h⟩ :=
          ((run.leaves h hbody).handled rfl rfl htarget htypes).ends hends
        obtain ⟨o, s₂, handle⟩ := taken.exists_eval k' h hhandler hends
        exact ⟨o, s₂, .caught run hselect handle⟩
    · exact ⟨o, s₁, .attempt run fun e op hraised => ho ⟨e, op, hraised⟩⟩
termination_by (fuel, sizeOf st)

private theorem Block.exists_eval {defs : Bool} (block : Block defs) {c : Control} {m : Machine}
    {out : String} {s : State} (fuel : Nat) (h : Stands p c m out s)
    (hbytes : p.HoldsAt c.pc block.flatten) (hends : Ends p fuel m) :
    ∃ o s', block.Eval s o s' := by
  match block with
  | .nil => exact ⟨_, _, .nil s⟩
  | .cons first rest =>
    obtain ⟨hfirst, hrest⟩ := Block.located_cons hbytes
    obtain ⟨o, s₁, run⟩ := first.exists_eval fuel h hfirst hends
    by_cases ho : o = .normal
    · subst ho
      obtain ⟨k, m', out', hfuel, hends, h⟩ := (run.leaves h hfirst).ends hends
      obtain ⟨o, s', on⟩ := rest.exists_eval k h hrest hends
      exact ⟨o, s', .cons run on⟩
    · exact ⟨o, s₁, .leave run ho⟩
termination_by (fuel, sizeOf block)
decreasing_by
  · exact Prod.Lex.right _ (by simp only [Block.cons.sizeOf_spec]; omega)
  · rcases Nat.lt_or_eq_of_le hfuel with hlt | rfl
    · exact Prod.Lex.left _ _ hlt
    · exact Prod.Lex.right _ (by simp only [Block.cons.sizeOf_spec]; omega)

end

theorem Stands.initial : Stands p ⟨0, #[], []⟩ Machine.initial "" State.initial where
  stack := rfl
  vars _ := Slots.get?_empty _
  functions id := by
    rw [Machine.initial, Slots.get?_empty]
    exact .none
  printed := rfl
  pc := rfl
  calls := rfl
  scopes := rfl
  settled := rfl

/-- Every evaluation of a structured program is the run of its bytes, and every run of its bytes
that ends is an evaluation, with the same output, stack, variables, functions and ending. -/
theorem run_flatten (block : Block true) (m : Machine) (trace : Trace) :
    (∀ o s, block.Eval .initial o s →
      ∃ fuel r, m.run (.ofList block.flatten) fuel .unlimited trace = some r ∧
        Agrees (.ofList block.flatten) r o s) ∧
    (∀ fuel r, m.run (.ofList block.flatten) fuel .unlimited trace = some r →
      ∃ o s, block.Eval .initial o s ∧ Agrees (.ofList block.flatten) r o s) := by
  have hbytes := holdsAt_ofList block.flatten
  have hleaves {o s} (heval : block.Eval .initial o s) :
      Leaves (.ofList block.flatten) ⟨(ofList block.flatten).size, #[], []⟩ .initial "" o s := by
    have h := heval.leaves Stands.initial hbytes
    rw [Nat.zero_add] at h
    exact h
  refine ⟨fun o s heval => ?_, fun fuel r hrun => ?_⟩
  · obtain ⟨r, hagrees, ⟨fuel, hrun⟩, -⟩ := (hleaves heval).run_agrees _
    exact ⟨fuel, r, hrun, hagrees⟩
  · obtain ⟨o, s, heval⟩ := block.exists_eval fuel Stands.initial hbytes ⟨_, _, r, rfl, hrun⟩
    obtain ⟨r', hagrees, -, hunique⟩ := (hleaves heval).run_agrees _
    obtain rfl := hunique hrun
    exact ⟨o, s, heval, hagrees⟩

end PixelCode.Structured
