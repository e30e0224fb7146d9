import PixelCode.Machine.Step
import PixelCode.Proofs.Program.Walk

/-! What an instruction that lets the run go on can do to the state. -/
namespace PixelCode.Machine

/-- The innermost of some scopes that takes an exception is `scope`, with the scopes `outer` around
it, and its clause at `target` accepts. The scopes inside it are spent or accept nothing. -/
inductive Takes (p : Program) (e : Exception) (scope : Scope) (outer : List Scope) (target : Nat) :
    List Scope → Prop where
  | here (fresh : scope.spent = false)
      (found : p.acceptingClause e scope.clause = .ok (some target)) :
      Takes p e scope outer target (scope :: outer)
  | further {s : Scope} {rest : List Scope}
      (passed : s.spent = true ∨ p.acceptingClause e s.clause = .ok none) :
      Takes p e scope outer target rest → Takes p e scope outer target (s :: rest)

/-- The moves of the machine. Each names the operation it belongs to and all that it changes. -/
inductive Move (p : Program) (m : Machine) : Machine → Prop where
  /-- Only the operand stack changes, and control goes to the next instruction. -/
  | plain (stack : Stack) (inside : p.next m.pc ≤ p.size) :
      Move p m { m with pc := p.next m.pc, stack }
  | store (id : UInt8) (v : Float) (op : p.opcode? m.pc = some .store)
      (operand : p.byte? (m.pc + 1) = some id) (top : m.stack.top? = some v) :
      Move p m { m with pc := m.pc + 2, stack := m.stack.pop, vars := m.vars.set id v }
  | define (id : UInt8) (ret : Nat) (op : p.opcode? m.pc = some .func)
      (operand : p.byte? (m.pc + 1) = some id) (found : p.firstReturn? (m.pc + 2) = some ret) :
      Move p m { m with pc := ret + 1, functions := m.functions.set id (m.pc + 2) }
  | call (id : UInt8) (entry : Nat) (op : p.opcode? m.pc = some .call)
      (operand : p.byte? (m.pc + 1) = some id) (found : m.functions.get? id = some entry) :
      Move p m { m with pc := entry, calls := m.calls.push (m.pc + 2) }
  | ret (address : Nat) (op : p.opcode? m.pc = some .ret) (back : m.calls.back? = some address) :
      Move p m { m with pc := address, calls := m.calls.pop }
  | openTry (clause : Nat) (op : p.opcode? m.pc = some .openTry)
      (found : p.firstClause? (m.pc + 1) = some clause) :
      Move p m { m with
        pc := m.pc + 1
        scopes := ⟨clause, m.stack.size, m.calls.size, [], false⟩ :: m.scopes }
  | enter (scope : Scope) (outer : List Scope) (accepts : List UInt8)
      (op : p.opcode? m.pc = some .clause) (inside : p.next m.pc ≤ p.size)
      (open_ : m.scopes = scope :: outer) (unwinding : m.unwinding = true) :
      Move p m { m with
        pc := p.next m.pc
        scopes := { scope with accepts } :: outer
        unwinding := false }
  | pass (scope : Scope) (outer : List Scope) (accepts : List UInt8) (q : Nat)
      (op : p.opcode? m.pc = some .clause) (inside : p.next m.pc ≤ p.size)
      (open_ : m.scopes = scope :: outer) (settled : m.unwinding = false)
      (found : p.clauseEnd? (p.next m.pc) = some q) :
      Move p m { m with pc := q, scopes := { scope with accepts } :: outer }
  | endTry (op : p.opcode? m.pc = some .endTry) :
      Move p m { m with pc := m.pc + 1, scopes := m.scopes.tail, unwinding := false }
  /-- A division by zero is routed to the innermost scope that takes it. -/
  | raise (scope : Scope) (outer : List Scope) (target : Nat)
      (op : p.opcode? m.pc = some .div ∨ p.opcode? m.pc = some .mod)
      (taken : Takes p .divisionByZero scope outer target m.scopes) :
      Move p m { m with
        pc := target
        stack := m.stack.pop.pop.truncate scope.depth
        calls := m.calls.shrink scope.calls
        scopes := { scope with spent := true } :: outer
        unwinding := true }

section Inversion
variable {p : Program} {m m' : Machine} {events : List Event} {text : String}

theorem Takes.mem {e : Exception} {scope : Scope} {outer scopes : List Scope} {target : Nat}
    (h : Takes p e scope outer target scopes) : scope ∈ scopes ∧ ∀ s ∈ outer, s ∈ scopes := by
  induction h with
  | here => exact ⟨List.mem_cons_self, fun s hs => List.mem_cons_of_mem _ hs⟩
  | further _ _ ih =>
    exact ⟨List.mem_cons_of_mem _ ih.1, fun s hs => List.mem_cons_of_mem _ (ih.2 s hs)⟩

theorem Takes.found {e : Exception} {scope : Scope} {outer scopes : List Scope} {target : Nat}
    (h : Takes p e scope outer target scopes) :
    scope.spent = false ∧ p.acceptingClause e scope.clause = .ok (some target) := by
  induction h with
  | here fresh found => exact ⟨fresh, found⟩
  | further _ _ ih => exact ih

private theorem withOperand_eq_next {k : Machine → UInt8 → Step}
    (h : m.withOperand p k = .next m' events text) :
    ∃ b, p.byte? m.pc = some b ∧ k { m with pc := m.pc + 1 } b = .next m' events text := by
  unfold withOperand at h
  split at h
  next b hb => exact ⟨b, hb, h⟩
  next => cases h

private theorem withOperands_eq_next {count : Nat} {k : Machine → List UInt8 → Step}
    (h : withOperands p count m k = .next m' events text) (hpc : m.pc ≤ p.size) :
    ∃ bs, m.pc + count ≤ p.size ∧ k { m with pc := m.pc + count } bs = .next m' events text := by
  induction count generalizing m k with
  | zero => exact ⟨[], hpc, h⟩
  | succ count ih =>
    obtain ⟨b, hb, h⟩ := withOperand_eq_next h
    have hin := Program.lt_size_of_byte? hb
    obtain ⟨bs, hle, h⟩ := ih h hin
    have hpc : m.pc + 1 + count = m.pc + (count + 1) := by omega
    simp only [hpc] at hle h
    exact ⟨b :: bs, hle, h⟩

theorem withTop_eq_next {k : Machine → Float → Step} (h : m.withTop k = .next m' events text) :
    ∃ v, m.stack.top? = some v ∧ k { m with stack := m.stack.pop } v = .next m' events text := by
  unfold withTop at h
  split at h
  next v hv => exact ⟨v, hv, h⟩
  next => cases h

theorem after_eq_next {e : Event} {s : Step} (h : s.after e = .next m' events text) :
    ∃ rest, s = .next m' rest text ∧ events = e :: rest := by
  cases s with
  | next m rest text => cases h; exact ⟨rest, rfl, rfl⟩
  | stop m events => cases h
  | fault m events cause => cases h

/-- A raised exception goes on only in the innermost scope that takes it. -/
theorem raiseTo_eq_next {e : Exception} {scopes : List Scope}
    (h : raiseTo p e m scopes = .next m' events text) :
    ∃ scope outer target, Takes p e scope outer target scopes ∧
      m' = { m with
        pc := target
        stack := m.stack.truncate scope.depth
        calls := m.calls.shrink scope.calls
        scopes := { scope with spent := true } :: outer
        unwinding := true } ∧
      events = [.handled target scope.depth] ∧ text = "" := by
  fun_induction raiseTo p e m scopes with
  | case1 => cases h
  | case2 scope outer hspent ih =>
    obtain ⟨scope', outer', target, htakes, hstep⟩ := ih h
    exact ⟨scope', outer', target, .further (.inl hspent) htakes, hstep⟩
  | case3 => cases h
  | case4 scope outer hspent hnone ih =>
    obtain ⟨scope', outer', target, htakes, hstep⟩ := ih h
    exact ⟨scope', outer', target, .further (.inr hnone) htakes, hstep⟩
  | case5 scope outer hspent target htarget =>
    injection h with hm hevents htext
    exact ⟨scope, outer, target, .here (by simpa using hspent) htarget, hm.symm, hevents.symm,
      htext.symm⟩

/-- An instruction that only changed the operand stack moves past its `n` operand bytes. -/
theorem Move.past {op : Opcode} (n : Nat) (stack : Stack) (hop : p.opcode? m.pc = some op)
    (hwidth : op ≠ .clause ∧ op.operands = n) (hin : m.pc + n < p.size) :
    Move p m { m with pc := m.pc + 1 + n, stack } := by
  have hnext : p.next m.pc = m.pc + 1 + n := hwidth.2 ▸ Program.next_of_opcode? hop hwidth.1
  rw [← hnext]
  exact .plain stack (by omega)

private theorem binary_move {op : Opcode} {f : Float → Float → Float}
    (hop : p.opcode? m.pc = some op) (hwidth : op ≠ .clause ∧ op.operands = 0)
    (h : { m with pc := m.pc + 1 }.binary f = .next m' events text) : Move p m m' := by
  obtain ⟨a, -, h⟩ := withTop_eq_next h
  obtain ⟨b, -, h⟩ := withTop_eq_next h
  cases h
  exact .past 0 _ hop hwidth (Program.lt_size_of_opcode? hop)

private theorem print_move {op : Opcode} {f : Float → String}
    (hop : p.opcode? m.pc = some op) (hwidth : op ≠ .clause ∧ op.operands = 0)
    (h : { m with pc := m.pc + 1 }.print f = .next m' events text) : Move p m m' := by
  obtain ⟨v, -, h⟩ := withTop_eq_next h
  cases h
  exact .past 0 _ hop hwidth (Program.lt_size_of_opcode? hop)

private theorem division_move {f : Float → Float → Float}
    (hop : p.opcode? m.pc = some .div ∨ p.opcode? m.pc = some .mod)
    (h : { m with pc := m.pc + 1 }.division p f = .next m' events text) : Move p m m' := by
  obtain ⟨a, -, h⟩ := withTop_eq_next h
  obtain ⟨b, -, h⟩ := withTop_eq_next h
  split at h
  next =>
    obtain ⟨rest, h, -⟩ := after_eq_next h
    obtain ⟨scope, outer, target, htakes, rfl, -⟩ := raiseTo_eq_next h
    exact .raise scope outer target hop htakes
  next =>
    cases h
    rcases hop with hop | hop
    · exact .past 0 _ hop (by decide) (Program.lt_size_of_opcode? hop)
    · exact .past 0 _ hop (by decide) (Program.lt_size_of_opcode? hop)

private theorem ret_move (hop : p.opcode? m.pc = some .ret)
    (h : { m with pc := m.pc + 1 }.ret = .next m' events text) : Move p m m' := by
  unfold ret at h
  split at h
  next address haddress =>
    cases h
    exact .ret address hop haddress
  next => cases h

private theorem openTry_move (hop : p.opcode? m.pc = some .openTry)
    (h : { m with pc := m.pc + 1 }.openTry p = .next m' events text) : Move p m m' := by
  unfold openTry at h
  split at h
  next clause hclause =>
    cases h
    exact .openTry clause hop hclause
  next => cases h

private theorem clause_move (hop : p.opcode? m.pc = some .clause)
    (h : { m with pc := m.pc + 1 }.clause p = .next m' events text) : Move p m m' := by
  unfold clause at h
  split at h
  next => cases h
  next scope outer hscopes =>
    obtain ⟨count, hcount, h⟩ := withOperand_eq_next h
    obtain ⟨accepts, hle, h⟩ := withOperands_eq_next h (Program.lt_size_of_byte? hcount)
    have hnext := Program.next_of_clause hop hcount
    have hpc : m.pc + 1 + 1 + count.toNat = p.next m.pc := by omega
    simp only [hpc] at hle h
    split at h
    next hunwinding =>
      cases h
      exact .enter scope outer accepts hop hle hscopes hunwinding
    next hunwinding =>
      split at h
      next q hq =>
        cases h
        exact .pass scope outer accepts q hop hle hscopes (by simpa using hunwinding) hq
      next => cases h

/-- Every instruction after which the run goes on is one of the moves. -/
theorem dispatch_move {b : UInt8} (hb : p.byte? m.pc = some b)
    (h : m.dispatch p b = .next m' events text) : Move p m m' := by
  have hop := Program.opcode?_of_byte? hb
  unfold dispatch at h
  split at h
  next op hbyte =>
    rw [hbyte] at hop
    obtain ⟨rest, h, -⟩ := after_eq_next h
    unfold execute at h
    cases op with
    | push =>
      obtain ⟨v, hv, h⟩ := withOperand_eq_next h
      cases h
      exact .past 1 _ hop (by decide) (Program.lt_size_of_byte? hv)
    | pop =>
      obtain ⟨v, -, h⟩ := withTop_eq_next h
      cases h
      exact .past 0 _ hop (by decide) (Program.lt_size_of_opcode? hop)
    | dup =>
      obtain ⟨v, -, h⟩ := withTop_eq_next h
      cases h
      exact .past 0 _ hop (by decide) (Program.lt_size_of_opcode? hop)
    | add | sub | mul | exp => exact binary_move hop (by decide) h
    | div => exact division_move (.inl hop) h
    | mod => exact division_move (.inr hop) h
    | halt => cases h
    | store =>
      obtain ⟨id, hid, h⟩ := withOperand_eq_next h
      obtain ⟨v, hv, h⟩ := withTop_eq_next h
      cases h
      exact .store id v hop hid hv
    | load =>
      obtain ⟨id, hid, h⟩ := withOperand_eq_next h
      split at h
      next v hv =>
        cases h
        exact .past 1 _ hop (by decide) (Program.lt_size_of_byte? hid)
      next => cases h
    | call =>
      obtain ⟨id, hid, h⟩ := withOperand_eq_next h
      split at h
      next entry hentry =>
        cases h
        exact .call id entry hop hid hentry
      next => cases h
    | ret => exact ret_move hop h
    | func =>
      obtain ⟨id, hid, h⟩ := withOperand_eq_next h
      split at h
      next ret hret =>
        cases h
        exact .define id ret hop hid hret
      next => cases h
    | printNum | printChar | printlnNum | printlnChar => exact print_move hop (by decide) h
    | openTry => exact openTry_move hop h
    | clause => exact clause_move hop h
    | endTry =>
      cases h
      exact .endTry hop
  next hbyte =>
    cases h
    rw [hbyte] at hop
    have hnext := Program.next_of_unknown hop
    rw [← hnext]
    exact .plain m.stack (hnext ▸ Program.lt_size_of_byte? hb)

end Inversion

end PixelCode.Machine
