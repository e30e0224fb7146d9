import PixelCode.Proofs.Machine.Routing
import PixelCode.Proofs.Structured.Exit
import PixelCode.Proofs.Structured.Scan

/-! The machine leaves every statement as its evaluation says. -/
namespace PixelCode.Structured
open Program Machine

variable {p : Program} {c : Control} {m : Machine} {out : String} {s s' : State} {o : Outcome}
  {defs : Bool}

section Functions

private theorem Stmt.goes_define {id : UInt8} {body : Block false} (h : Stands p c m out s)
    (hbytes : p.HoldsAt c.pc (Stmt.define id body).flatten) :
    Goes p 1 m out { c with pc := c.pc + (Stmt.define id body).flatten.length }
      { s with functions := fun i => if i = id then some body else s.functions i } := by
  obtain ⟨hfunc, hid, hbody⟩ := Stmt.located_define hbytes
  rw [← h.pc] at hfunc hid hbody
  have hstep : { m with pc := m.pc + 1 }.execute p .func =
      .next { m with
        pc := m.pc + 2 + body.flatten.length + 1
        functions := m.functions.set id (m.pc + 2) } [.registered id (m.pc + 2)] "" := by
    rw [execute, Machine.define, withOperand_of_byte? hid]
    simp only [Block.firstReturn?_end hbody]
  refine .of_execute hfunc hstep { h with functions := fun i => ?_, pc := ?_ }
  · rw [Slots.get?_set]
    by_cases hi : i = id
    · simp only [if_pos hi]
      exact .some hbody
    · simp only [if_neg hi]
      exact h.functions i
  · simp only [Stmt.flatten, List.length_cons, List.length_append, List.length_nil, h.pc]
    omega

theorem Stmt.goes_call {id : UInt8} {body : Block false} (h : Stands p c m out s)
    (hbytes : p.HoldsAt c.pc (Stmt.call id : Stmt defs).flatten)
    (hbody : s.functions id = some body) :
    ∃ entry, FunctionAt p entry body ∧
      Goes p 1 m out { c with pc := entry, calls := c.calls.push (c.pc + 2) } s := by
  have hcall : p.opcode? m.pc = some .call := h.pc ▸ opcode?_of_holdsAt hbytes
  have hid : p.byte? (m.pc + 1) = some id := h.pc ▸ hbytes.2.1
  have hfunctions := h.functions id
  rw [hbody] at hfunctions
  generalize hfound : m.functions.get? id = found at hfunctions
  cases hfunctions with
  | @some entry _ hholds =>
    have hstep : { m with pc := m.pc + 1 }.execute p .call =
        .next { m with pc := entry, calls := m.calls.push (m.pc + 2) } [] "" := by
      rw [execute, Machine.call, withOperand_of_byte? hid]
      simp only [hfound]
      rfl
    exact ⟨entry, hholds,
      .of_execute hcall hstep { h with pc := rfl, calls := by rw [h.calls, h.pc] }⟩

private theorem Stmt.leaves_undefined {id : UInt8} (h : Stands p c m out s)
    (hbytes : p.HoldsAt c.pc (Stmt.call id : Stmt defs).flatten) (hnone : s.functions id = none)
    (c' : Control) : Leaves p c' m out (.faulted .undefinedFunction .call) s := by
  rw [← h.pc] at hbytes
  have hfunctions := h.functions id
  rw [hnone] at hfunctions
  generalize hfound : m.functions.get? id = found at hfunctions
  cases hfunctions
  refine .of_execute hbytes.1 ?_
  rw [execute, Machine.call, withOperand_of_byte? hbytes.2.1]
  simp only [hfound]
  exact .fault (h.move _).toRepresents

/-- A return goes back behind the call. -/
theorem goes_ret {pc address : Nat} {calls : Array Nat} {scopes : List Scope}
    (h : Stands p ⟨pc, calls.push address, scopes⟩ m out s) (hret : p.opcode? pc = some .ret) :
    Goes p 1 m out ⟨address, calls, scopes⟩ s := by
  have hstep : { m with pc := m.pc + 1 }.execute p .ret =
      .next { m with pc := address, calls } [] "" := by
    simp [execute, ret, h.calls, Step.silent]
  exact .of_execute (h.pc ▸ hret) hstep { h with pc := rfl, calls := rfl }

/-- The block of a function is left as the call is. -/
theorem Leaves.return {body : Block false} {entry : Nat}
    (h : Leaves p ⟨entry + body.flatten.length, c.calls.push (c.pc + 2), c.scopes⟩ m out o s)
    (hbody : FunctionAt p entry body) : Leaves p { c with pc := c.pc + 2 } m out o s := by
  refine h.widen ?_ (by simp) fun _ _ _ _ => rfl
  rintro rfl m out h
  exact .stand (goes_ret h (opcode?_of_holdsAt (holdsAt_append.1 hbody).2))

end Functions

section Scopes
variable {scope : Scope} {scopes : List Scope} {types : Types} {handler : Block defs}

theorem Stmt.goes_openTry {body : Block defs} {others : Clauses defs} (h : Stands p c m out s)
    (hbytes : p.HoldsAt c.pc (Stmt.attempt body types handler others).flatten) :
    Goes p 1 m out ⟨c.pc + 1, c.calls,
      ⟨c.pc + 1 + body.flatten.length, s.stack.length, c.calls.size, [], false⟩ :: c.scopes⟩ s := by
  obtain ⟨hopen, hbody, hclauses⟩ := Stmt.located_attempt hbytes
  have hdepth : m.stack.size = s.stack.length := by
    rw [Stack.size_eq, h.stack, List.length_reverse]
  have hclause := Block.firstClause?_eq hbody hclauses
  rw [← h.pc] at hopen hclause ⊢
  have hstep : { m with pc := m.pc + 1 }.execute p .openTry =
      .next { m with
        pc := m.pc + 1
        scopes := ⟨m.pc + 1 + body.flatten.length, m.stack.size, m.calls.size, [], false⟩ ::
          m.scopes } [] "" := by
    rw [execute, openTry]
    simp only [hclause]
    rfl
  exact .of_execute hopen hstep
    { h with pc := rfl, scopes := by rw [hdepth, h.calls, h.scopes] }

/-- The clause instruction reads its types before anything else. -/
theorem clause_eq (hscopes : m.scopes = scope :: scopes) (hbytes : p.HoldsAt m.pc types.bytes) :
    { m with pc := m.pc + 1 }.clause p =
      let m' := { m with
        pc := m.pc + types.bytes.length
        scopes := { scope with accepts := types.codes } :: scopes }
      if m.unwinding then
        .next { m' with unwinding := false } [.entered m'.pc types.codes] ""
      else match p.clauseEnd? m'.pc with
        | some pc => .silent { m' with pc }
        | none => .fault m' [] .unendedClause := by
  obtain ⟨-, hcount, hcodes⟩ := Types.holdsAt hbytes
  have hlength : m.pc + 1 + 1 + types.codes.length = m.pc + types.bytes.length := by
    simp only [Types.bytes, List.length_cons]
    omega
  rw [clause]
  simp only [hscopes]
  rw [withOperand_of_byte? hcount, types.count_toNat, withOperands_of_holdsAt hcodes]
  exact hlength ▸ rfl

/-- A clause that control comes to after a block is passed over. -/
theorem Clauses.goes_pass {rest : Clauses defs} (h : Stands p c m out s)
    (hscopes : c.scopes = scope :: scopes)
    (hbytes : p.HoldsAt c.pc
      ((Clauses.cons types handler rest).flatten ++ [Opcode.endTry.byte])) :
    Goes p 1 m out ⟨c.pc + types.bytes.length + handler.flatten.length, c.calls,
      { scope with accepts := types.codes } :: scopes⟩ s := by
  obtain ⟨htypes, hhandler, hrest⟩ := Clauses.located_scope hbytes
  have hend := Block.clauseEnd?_eq hhandler hrest
  rw [← h.pc] at htypes hend ⊢
  have hstep : { m with pc := m.pc + 1 }.execute p .clause =
      .next { m with
        pc := m.pc + types.bytes.length + handler.flatten.length
        scopes := { scope with accepts := types.codes } :: scopes } [] "" := by
    rw [execute, clause_eq (h.scopes.trans hscopes) htypes]
    simp only [h.settled, hend]
    rfl
  exact .of_execute (Types.holdsAt htypes).1 hstep { h with pc := rfl, scopes := rfl }

private theorem goes_endTry (h : Stands p c m out s) (hend : p.opcode? c.pc = some .endTry)
    (hscopes : c.scopes = scope :: scopes) : Goes p 1 m out ⟨c.pc + 1, c.calls, scopes⟩ s := by
  rw [← h.pc] at hend ⊢
  have hstep : { m with pc := m.pc + 1 }.execute p .endTry =
      .next { m with pc := m.pc + 1, scopes := m.scopes.tail, unwinding := false } [] "" := rfl
  exact .of_execute hend hstep
    { h with pc := rfl, scopes := by rw [h.scopes, hscopes, List.tail_cons], settled := rfl }

/-- A clause that an exception was routed to is entered. -/
theorem Types.goes_enter {calls : Array Nat} (h : Represents p m out s)
    (hbytes : p.HoldsAt m.pc types.bytes) (hcalls : m.calls = calls)
    (hscopes : m.scopes = scope :: scopes) (hunwinding : m.unwinding = true) :
    Goes p 1 m out ⟨m.pc + types.bytes.length, calls,
      { scope with accepts := types.codes } :: scopes⟩ s := by
  have hstep : { m with pc := m.pc + 1 }.execute p .clause =
      .next { m with
        pc := m.pc + types.bytes.length
        scopes := { scope with accepts := types.codes } :: scopes
        unwinding := false } [.entered (m.pc + types.bytes.length) types.codes] "" := by
    rw [execute, clause_eq hscopes hbytes]
    simp only [hunwinding]
    rfl
  exact .of_execute (Types.holdsAt hbytes).1 hstep
    { h with pc := rfl, calls := hcalls, scopes := rfl, settled := rfl }

/-- After a block of a scope, control passes over the clauses that are left and closes the scope. -/
theorem Clauses.leaves_scope {defs : Bool} (rest : Clauses defs) {c : Control} {m : Machine}
    {out : String} {scope : Scope} (h : Stands p c m out s)
    (hscopes : c.scopes = scope :: scopes)
    (hbytes : p.HoldsAt c.pc (rest.flatten ++ [Opcode.endTry.byte])) :
    Leaves p ⟨c.pc + rest.flatten.length + 1, c.calls, scopes⟩ m out .normal s := by
  match rest with
  | .nil => exact .stand (goes_endTry h (opcode?_of_holdsAt hbytes) hscopes)
  | .cons types handler rest =>
    have hrest := (Clauses.located_scope hbytes).2.2
    refine (Clauses.goes_pass h hscopes hbytes).andThen fun h => ?_
    have hleaves := rest.leaves_scope h rfl hrest
    simp only [Clauses.flatten, List.length_append, ← Nat.add_assoc] at hleaves ⊢
    exact hleaves
termination_by structural rest

/-- A block of a scope is left as the scope is, if the scope does not stop its exception. -/
theorem Leaves.close {rest : Clauses defs} {q : Nat} {calls : Array Nat}
    (h : Leaves p ⟨q, calls, scope :: scopes⟩ m out o s)
    (hbytes : p.HoldsAt q (rest.flatten ++ [Opcode.endTry.byte]))
    (hpass : ∀ e op, o = .raised e op →
      scope.spent = true ∨ p.acceptingClause e scope.clause = .ok none) :
    Leaves p ⟨q + rest.flatten.length + 1, calls, scopes⟩ m out o s := by
  refine h.widen ?_ (List.prefix_refl _) fun e op ho m => raiseTo_cons (hpass e op ho) m
  rintro rfl m out h
  exact rest.leaves_scope h rfl hbytes

private theorem calls_shrink {calls inner : Array Nat} {n : Nat} (hn : n = calls.size)
    (h : calls.toList <+: inner.toList) : inner.shrink n = calls := by
  apply Array.toList_inj.1
  rw [Array.toList_shrink, hn, ← Array.length_toList]
  exact (List.prefix_iff_eq_take.1 h).symm

/-- An exception that a clause of the scope accepts leads to the block of the clause. -/
theorem Leaves.handled {e : Exception} {op : Opcode} {q target : Nat} {calls : Array Nat}
    (h : Leaves p ⟨q, calls, scope :: scopes⟩ m out (.raised e op) s)
    (hfresh : scope.spent = false) (hdepth : scope.calls = calls.size)
    (htarget : p.acceptingClause e scope.clause = .ok (some target))
    (hbytes : p.HoldsAt target types.bytes) :
    Leaves p ⟨target + types.bytes.length, calls,
      { scope with accepts := types.codes, spent := true } :: scopes⟩ m out .normal
      (s.keep scope.depth) := by
  cases h with
  | @leave n events text m₁ _ _ _ path fetch _ h =>
    generalize hstep : m₁.dispatch p _ = step at h
    cases h with
    | @raise m₂ _ _ before h hcalls =>
      rw [raiseTo_here hfresh htarget, Step.behind] at hstep
      have hstack : (m₂.stack.truncate scope.depth).toList = (s.keep scope.depth).stack.reverse := by
        rw [Stack.toList_truncate, h.stack, State.keep, List.take_reverse]
      have hgoes := Types.goes_enter (m := { m₂ with
          pc := target
          stack := m₂.stack.truncate scope.depth
          calls := m₂.calls.shrink scope.calls
          scopes := { scope with spent := true } :: scopes
          unwinding := true }) { h with stack := hstack } hbytes
        (calls_shrink hdepth hcalls) rfl rfl
      have hpath := path.trans (.one fetch hstep)
      rw [String.append_empty] at hpath
      exact .stand (hgoes.after_path hpath)

end Scopes

mutual

/-- The machine leaves a statement as its evaluation says. -/
theorem Stmt.Eval.leaves {defs : Bool} {st : Stmt defs} {s s' : State} {o : Outcome}
    (heval : st.Eval s o s') {c : Control} {m : Machine} {out : String} (h : Stands p c m out s)
    (hbytes : p.HoldsAt c.pc st.flatten) :
    Leaves p { c with pc := c.pc + st.flatten.length } m out o s' := by
  match heval with
  | .atom a s => exact Atom.leaves h hbytes
  | .define id body s => exact .stand (Stmt.goes_define h hbytes)
  | .undefined hnone => exact Stmt.leaves_undefined h hbytes hnone _
  | .call hbody run =>
    obtain ⟨entry, hfunction, hgoes⟩ := Stmt.goes_call h hbytes hbody
    refine hgoes.andThen fun h => ?_
    exact (run.leaves h (holdsAt_append.1 hfunction).1).return hfunction
  | .attempt run hraised =>
    obtain ⟨-, hbody, hclauses⟩ := Stmt.located_attempt hbytes
    rw [Stmt.end_attempt]
    refine (Stmt.goes_openTry h hbytes).andThen fun h => (run.leaves h hbody).close hclauses ?_
    exact fun e op ho => absurd ho (hraised e op)
  | .uncaught run hselect =>
    obtain ⟨-, hbody, hclauses⟩ := Stmt.located_attempt hbytes
    rw [Stmt.end_attempt]
    refine (Stmt.goes_openTry h hbytes).andThen fun h => (run.leaves h hbody).close hclauses ?_
    rintro e op ⟨⟩
    exact .inr (Clauses.acceptingClause_of_select_none _ hclauses hselect)
  | .caught run hselect handle =>
    obtain ⟨-, hbody, hclauses⟩ := Stmt.located_attempt hbytes
    obtain ⟨target, types, rest, htarget, hscope, hend⟩ :=
      Clauses.acceptingClause_of_select_some _ hclauses hselect
    obtain ⟨htypes, hhandler, hrest⟩ := Clauses.located_scope hscope
    refine (Stmt.goes_openTry h hbytes).andThen fun h => ?_
    refine ((run.leaves h hbody).handled rfl rfl htarget htypes).andThen fun h => ?_
    have hleaves := (handle.leaves h hhandler).close hrest fun _ _ _ => .inl rfl
    rw [Stmt.end_attempt, ← hend]
    simp only [Clauses.flatten, List.length_append, ← Nat.add_assoc]
    exact hleaves
termination_by structural heval

theorem Block.Eval.leaves {defs : Bool} {block : Block defs} {s s' : State} {o : Outcome}
    (heval : block.Eval s o s') {c : Control} {m : Machine} {out : String} (h : Stands p c m out s)
    (hbytes : p.HoldsAt c.pc block.flatten) :
    Leaves p { c with pc := c.pc + block.flatten.length } m out o s' := by
  match heval with
  | .nil s =>
    refine .stand (n := 0) ⟨[], "", m, .refl m, ?_⟩
    rw [String.append_empty]
    exact h
  | .cons run on =>
    obtain ⟨hfirst, hrest⟩ := Block.located_cons hbytes
    rw [Block.end_cons]
    exact (run.leaves h hfirst).andThen fun h => on.leaves h hrest
  | .leave run habrupt =>
    obtain ⟨hfirst, -⟩ := Block.located_cons hbytes
    refine (run.leaves h hfirst).widen (fun ho => absurd ho habrupt) (List.prefix_refl _) ?_
    exact fun _ _ _ _ => rfl
termination_by structural heval

end

end PixelCode.Structured
