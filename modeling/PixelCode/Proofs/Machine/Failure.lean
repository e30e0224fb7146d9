import PixelCode.Proofs.Machine.Move
import PixelCode.Proofs.Program.Slice

/-! What an instruction that fails can do to the state, and what it reports before it does. -/
namespace PixelCode.Machine

/-- An exception gets to no clause of some scopes, and `rest` of them are left. Nobody takes it, or the
search for a clause fails in the innermost scope that is not spent and would have to be asked. -/
inductive Escapes (p : Program) (e : Exception) : Fault.Cause → List Scope → List Scope → Prop where
  | unhandled : Escapes p e (.unhandled e) [] []
  | broken {cause : Fault.Cause} {s : Scope} {outer : List Scope} (fresh : s.spent = false)
      (failed : p.acceptingClause e s.clause = .error cause) :
      Escapes p e cause (s :: outer) (s :: outer)
  | further {cause : Fault.Cause} {s : Scope} {rest scopes : List Scope}
      (passed : s.spent = true ∨ p.acceptingClause e s.clause = .ok none) :
      Escapes p e cause rest scopes → Escapes p e cause rest (s :: scopes)

/-- The failures of the machine. Each names the operation it belongs to, all that it changes and all
that it reports. -/
inductive Failure (p : Program) (m : Machine) : Machine → List Event → Fault.Cause → Prop where
  | operand {op : Opcode} (op_eq : p.opcode? m.pc = some op) (cut : p.size < p.next m.pc) :
      Failure p m { m with pc := p.size + 1 } [.dispatched m.pc op m.stack.size] .missingOperand
  /-- A value is missing on the operand stack, from which at most one was taken before. -/
  | value {op : Opcode} (stack : Stack) (op_eq : p.opcode? m.pc = some op) (takes : op ≠ .clause)
      (inside : p.next m.pc ≤ p.size) (left : stack = m.stack ∨ stack = m.stack.pop) :
      Failure p m { m with pc := p.next m.pc, stack } [.dispatched m.pc op m.stack.size]
        .stackUnderflow
  | load (id : UInt8) (op : p.opcode? m.pc = some .load) (operand : p.byte? (m.pc + 1) = some id)
      (unset : m.vars.get? id = none) :
      Failure p m { m with pc := m.pc + 2 } [.dispatched m.pc .load m.stack.size] .undefinedVariable
  | call (id : UInt8) (op : p.opcode? m.pc = some .call) (operand : p.byte? (m.pc + 1) = some id)
      (unset : m.functions.get? id = none) :
      Failure p m { m with pc := m.pc + 2 } [.dispatched m.pc .call m.stack.size] .undefinedFunction
  | define (id : UInt8) (op : p.opcode? m.pc = some .func) (operand : p.byte? (m.pc + 1) = some id)
      (missing : p.firstReturn? (m.pc + 2) = none) :
      Failure p m { m with pc := m.pc + 2 } [.dispatched m.pc .func m.stack.size] .missingReturn
  | openTry (op : p.opcode? m.pc = some .openTry) (missing : p.firstClause? (m.pc + 1) = none) :
      Failure p m { m with pc := m.pc + 1 } [.dispatched m.pc .openTry m.stack.size] .missingClause
  | misplaced (op : p.opcode? m.pc = some .clause) (outside : m.scopes = []) :
      Failure p m { m with pc := m.pc + 1 } [.dispatched m.pc .clause m.stack.size] .misplacedClause
  | unended (scope : Scope) (outer : List Scope) (op : p.opcode? m.pc = some .clause)
      (inside : p.next m.pc ≤ p.size) (open_ : m.scopes = scope :: outer)
      (settled : m.unwinding = false) (missing : p.clauseEnd? (p.next m.pc) = none) :
      Failure p m
        { m with
          pc := p.next m.pc
          scopes := { scope with accepts := p.slice (m.pc + 2) (p.next m.pc) } :: outer }
        [.dispatched m.pc .clause m.stack.size] .unendedClause
  | escape {op : Opcode} {cause : Fault.Cause} (rest : List Scope) (op_eq : p.opcode? m.pc = some op)
      (divides : op = .div ∨ op = .mod) (escapes : Escapes p .divisionByZero cause rest m.scopes) :
      Failure p m
        { m with pc := m.pc + 1, stack := m.stack.pop.pop, scopes := rest }
        [.dispatched m.pc op m.stack.size, .raised .divisionByZero (m.pc + 1)] cause

section Inversion
variable {p : Program} {m m' : Machine} {events : List Event} {cause : Fault.Cause}

theorem after_eq_fault {e : Event} {s : Step} (h : s.after e = .fault m' events cause) :
    ∃ rest, s = .fault m' rest cause ∧ events = e :: rest := by
  cases s with
  | next m events text => cases h
  | stop m events => cases h
  | fault m rest cause => cases h; exact ⟨rest, rfl, rfl⟩

theorem withTop_eq_fault {k : Machine → Float → Step} (h : m.withTop k = .fault m' events cause) :
    m' = m ∧ events = [] ∧ cause = .stackUnderflow ∨
      ∃ v, m.stack.top? = some v ∧ k { m with stack := m.stack.pop } v = .fault m' events cause := by
  unfold withTop at h
  split at h
  next v hv => exact .inr ⟨v, hv, h⟩
  next => cases h; exact .inl ⟨rfl, rfl, rfl⟩

/-- The operand of the operation right before the program counter is there, or the program ends. -/
theorem withOperand_eq_fault {k : Machine → UInt8 → Step}
    (h : m.withOperand p k = .fault m' events cause) (hpc : m.pc ≤ p.size) :
    m.pc = p.size ∧ m' = { m with pc := p.size + 1 } ∧ events = [] ∧ cause = .missingOperand ∨
      ∃ b, p.byte? m.pc = some b ∧ k { m with pc := m.pc + 1 } b = .fault m' events cause := by
  unfold withOperand at h
  split at h
  next b hb => exact .inr ⟨b, hb, h⟩
  next hnone =>
    have hout : p.size ≤ m.pc := Array.getElem?_eq_none_iff.1 hnone
    have hend : m.pc = p.size := Nat.le_antisymm hpc hout
    cases h
    exact .inl ⟨hend, by rw [hend], rfl, rfl⟩

/-- Operands are read as they stand in the program, unless it ends before the last of them. -/
theorem withOperands_eq {count : Nat} {k : Machine → List UInt8 → Step} (hpc : m.pc ≤ p.size) :
    withOperands p count m k =
      if m.pc + count ≤ p.size then
        k { m with pc := m.pc + count } (p.slice m.pc (m.pc + count))
      else .fault { m with pc := p.size + 1 } [] .missingOperand := by
  induction count generalizing m k with
  | zero =>
    have hnone : p.slice m.pc m.pc = [] := by rw [Program.slice_eq, Nat.sub_self, List.take_zero]
    rw [withOperands, Nat.add_zero, if_pos hpc, hnone]
  | succ count ih =>
    rw [withOperands, withOperand]
    cases hb : p.byte? m.pc with
    | none =>
      have hout : p.size ≤ m.pc := Array.getElem?_eq_none_iff.1 hb
      have hend : m.pc = p.size := Nat.le_antisymm hpc hout
      rw [if_neg (by omega)]
      simp only [hend]
    | some b =>
      have hin := Program.lt_size_of_byte? hb
      have hsum : m.pc + 1 + count = m.pc + (count + 1) := by omega
      simp only [ih (m := { m with pc := m.pc + 1 }) hin, hsum,
        Program.slice_cons hb (show m.pc < m.pc + (count + 1) by omega)]

/-- What reaching a clause of an open scope leads to. -/
theorem clause_eq_of_scopes {scope : Scope} {outer : List Scope}
    (hop : p.opcode? m.pc = some .clause) (hscopes : m.scopes = scope :: outer) :
    { m with pc := m.pc + 1 }.clause p =
      if p.next m.pc ≤ p.size then
        let accepts := p.slice (m.pc + 2) (p.next m.pc)
        let m' := { m with pc := p.next m.pc, scopes := { scope with accepts } :: outer }
        if m.unwinding then
          .next { m' with unwinding := false } [.entered (p.next m.pc) accepts] ""
        else match p.clauseEnd? (p.next m.pc) with
          | some pc => .silent { m' with pc }
          | none => .fault m' [] .unendedClause
      else .fault { m with pc := p.size + 1 } [] .missingOperand := by
  have hin := Program.lt_size_of_opcode? hop
  simp only [clause, hscopes, withOperand]
  cases hcount : p.byte? (m.pc + 1) with
  | none =>
    have hout : p.size ≤ m.pc + 1 := Array.getElem?_eq_none_iff.1 hcount
    have hend : m.pc + 1 = p.size := by omega
    have hcut : ¬ p.next m.pc ≤ p.size := by
      rw [Program.next, Program.operandCount, hop]
      simp only
      omega
    rw [if_neg hcut]
    simp only [hend]
  | some count =>
    have hnext : p.next m.pc = m.pc + 1 + 1 + count.toNat := Program.next_of_clause hop hcount
    rw [hnext]
    exact withOperands_eq (Program.lt_size_of_byte? hcount)

/-- A raised exception that ends the run has escaped all scopes that it came to. -/
theorem raiseTo_eq_fault {e : Exception} {scopes : List Scope}
    (h : raiseTo p e m scopes = .fault m' events cause) :
    ∃ rest, Escapes p e cause rest scopes ∧ m' = { m with scopes := rest } ∧ events = [] := by
  fun_induction raiseTo p e m scopes with
  | case1 => cases h; exact ⟨[], .unhandled, rfl, rfl⟩
  | case2 scope outer hspent ih =>
    obtain ⟨rest, hescapes, hm, hevents⟩ := ih h
    exact ⟨rest, .further (.inl hspent) hescapes, hm, hevents⟩
  | case3 scope outer hspent cause' hfailed =>
    cases h
    exact ⟨scope :: outer, .broken (by simpa using hspent) hfailed, rfl, rfl⟩
  | case4 scope outer hspent hnone ih =>
    obtain ⟨rest, hescapes, hm, hevents⟩ := ih h
    exact ⟨rest, .further (.inr hnone) hescapes, hm, hevents⟩
  | case5 => cases h

/-- A failure for want of a value, behind the `n` operand bytes of the operation. -/
private theorem Failure.underflow {op : Opcode} (n : Nat) (stack : Stack)
    (hop : p.opcode? m.pc = some op) (hwidth : op ≠ .clause ∧ op.operands = n)
    (hin : m.pc + n < p.size) (hleft : stack = m.stack ∨ stack = m.stack.pop) :
    Failure p m { m with pc := m.pc + 1 + n, stack } [.dispatched m.pc op m.stack.size]
      .stackUnderflow := by
  have hnext : p.next m.pc = m.pc + 1 + n := hwidth.2 ▸ Program.next_of_opcode? hop hwidth.1
  rw [← hnext]
  exact .value stack hop hwidth.1 (by omega) hleft

/-- A failure for want of the one operand byte of an operation. -/
private theorem Failure.truncated {op : Opcode} (hop : p.opcode? m.pc = some op)
    (hwidth : op ≠ .clause ∧ op.operands = 1) (hend : m.pc + 1 = p.size) :
    Failure p m { m with pc := p.size + 1 } [.dispatched m.pc op m.stack.size] .missingOperand := by
  have hnext : p.next m.pc = m.pc + 1 + 1 := hwidth.2 ▸ Program.next_of_opcode? hop hwidth.1
  exact .operand hop (by omega)

private theorem print_failure {op : Opcode} {f : Float → String} {rest : List Event}
    (hop : p.opcode? m.pc = some op) (hwidth : op ≠ .clause ∧ op.operands = 0)
    (h : { m with pc := m.pc + 1 }.print f = .fault m' rest cause) :
    Failure p m m' (.dispatched m.pc op m.stack.size :: rest) cause := by
  rcases withTop_eq_fault h with ⟨rfl, rfl, rfl⟩ | ⟨v, -, h⟩
  · exact .underflow 0 m.stack hop hwidth (Program.lt_size_of_opcode? hop) (.inl rfl)
  · cases h

/-- Two values are taken, and the failure comes before that or from what is done with them. -/
private theorem pair_failure {op : Opcode} {k : Machine → Float → Float → Step} {rest : List Event}
    (hop : p.opcode? m.pc = some op) (hwidth : op ≠ .clause ∧ op.operands = 0)
    (hk : ∀ a b, k { m with pc := m.pc + 1, stack := m.stack.pop.pop } a b = .fault m' rest cause →
      Failure p m m' (.dispatched m.pc op m.stack.size :: rest) cause)
    (h : { m with pc := m.pc + 1 }.withTop (fun m a => m.withTop fun m b => k m a b) =
      .fault m' rest cause) :
    Failure p m m' (.dispatched m.pc op m.stack.size :: rest) cause := by
  have hin := Program.lt_size_of_opcode? hop
  rcases withTop_eq_fault h with ⟨rfl, rfl, rfl⟩ | ⟨a, -, h⟩
  · exact .underflow 0 m.stack hop hwidth hin (.inl rfl)
  · rcases withTop_eq_fault h with ⟨rfl, rfl, rfl⟩ | ⟨b, -, h⟩
    · exact .underflow 0 m.stack.pop hop hwidth hin (.inr rfl)
    · exact hk a b h

private theorem binary_failure {op : Opcode} {f : Float → Float → Float} {rest : List Event}
    (hop : p.opcode? m.pc = some op) (hwidth : op ≠ .clause ∧ op.operands = 0)
    (h : { m with pc := m.pc + 1 }.binary f = .fault m' rest cause) :
    Failure p m m' (.dispatched m.pc op m.stack.size :: rest) cause := by
  apply pair_failure (k := fun m a b => .silent (m.push (f b a))) hop hwidth _ h
  intro a b hk
  cases hk

private theorem division_failure {op : Opcode} {f : Float → Float → Float} {rest : List Event}
    (hop : p.opcode? m.pc = some op) (hdivides : op = .div ∨ op = .mod)
    (h : { m with pc := m.pc + 1 }.division p f = .fault m' rest cause) :
    Failure p m m' (.dispatched m.pc op m.stack.size :: rest) cause := by
  have hwidth : op ≠ .clause ∧ op.operands = 0 := by rcases hdivides with rfl | rfl <;> decide
  apply pair_failure (k := fun m a b =>
    if a == 0.0 then m.raise p .divisionByZero else .silent (m.push (f b a))) hop hwidth _ h
  intro a b hk
  split at hk
  next =>
    obtain ⟨rest', hraise, rfl⟩ := after_eq_fault hk
    obtain ⟨scopes, hescapes, rfl, rfl⟩ := raiseTo_eq_fault hraise
    exact .escape scopes hop hdivides hescapes
  next => cases hk

private theorem clause_failure {rest : List Event} (hop : p.opcode? m.pc = some .clause)
    (h : { m with pc := m.pc + 1 }.clause p = .fault m' rest cause) :
    Failure p m m' (.dispatched m.pc .clause m.stack.size :: rest) cause := by
  cases hscopes : m.scopes with
  | nil =>
    simp only [clause, hscopes] at h
    cases h
    exact hscopes ▸ .misplaced hop hscopes
  | cons scope outer =>
    rw [clause_eq_of_scopes hop hscopes] at h
    split at h
    next hinside =>
      dsimp only at h
      split at h
      next => cases h
      next hsettled =>
        split at h
        next => cases h
        next hmissing =>
          cases h
          exact .unended scope outer hop hinside hscopes (by simpa using hsettled) hmissing
    next hcut =>
      cases h
      exact .operand hop (Nat.not_le.1 hcut)

/-- Every operation that fails is one of the failures. -/
theorem execute_failure {op : Opcode} {rest : List Event} (hop : p.opcode? m.pc = some op)
    (h : { m with pc := m.pc + 1 }.execute p op = .fault m' rest cause) :
    Failure p m m' (.dispatched m.pc op m.stack.size :: rest) cause := by
  have hin := Program.lt_size_of_opcode? hop
  unfold execute at h
  cases op with
  | push =>
    rcases withOperand_eq_fault h hin with ⟨hend, rfl, rfl, rfl⟩ | ⟨v, -, h⟩
    · exact .truncated hop (by decide) hend
    · cases h
  | pop | dup =>
    rcases withTop_eq_fault h with ⟨rfl, rfl, rfl⟩ | ⟨v, -, h⟩
    · exact .underflow 0 m.stack hop (by decide) hin (.inl rfl)
    · cases h
  | add | sub | mul | exp => exact binary_failure hop (by decide) h
  | div => exact division_failure hop (.inl rfl) h
  | mod => exact division_failure hop (.inr rfl) h
  | halt => cases h
  | store =>
    rcases withOperand_eq_fault h hin with ⟨hend, rfl, rfl, rfl⟩ | ⟨id, hid, h⟩
    · exact .truncated hop (by decide) hend
    · rcases withTop_eq_fault h with ⟨rfl, rfl, rfl⟩ | ⟨v, -, h⟩
      · exact .underflow 1 m.stack hop (by decide) (Program.lt_size_of_byte? hid) (.inl rfl)
      · cases h
  | load =>
    rcases withOperand_eq_fault h hin with ⟨hend, rfl, rfl, rfl⟩ | ⟨id, hid, h⟩
    · exact .truncated hop (by decide) hend
    · split at h
      next => cases h
      next hunset => cases h; exact .load id hop hid hunset
  | call =>
    rcases withOperand_eq_fault h hin with ⟨hend, rfl, rfl, rfl⟩ | ⟨id, hid, h⟩
    · exact .truncated hop (by decide) hend
    · split at h
      next => cases h
      next hunset => cases h; exact .call id hop hid hunset
  | ret =>
    have hstop : ({ m with pc := m.pc + 1 }.ret) = .fault m' rest cause := h
    unfold ret at hstop
    split at hstop <;> cases hstop
  | func =>
    rcases withOperand_eq_fault h hin with ⟨hend, rfl, rfl, rfl⟩ | ⟨id, hid, h⟩
    · exact .truncated hop (by decide) hend
    · split at h
      next => cases h
      next hmissing => cases h; exact .define id hop hid hmissing
  | printNum | printChar | printlnNum | printlnChar => exact print_failure hop (by decide) h
  | openTry =>
    have hopen : { m with pc := m.pc + 1 }.openTry p = .fault m' rest cause := h
    unfold openTry at hopen
    split at hopen
    next => cases hopen
    next hmissing => cases hopen; exact .openTry hop hmissing
  | clause => exact clause_failure hop h
  | endTry => cases h

/-- Every instruction that fails is one of the failures. -/
theorem dispatch_failure {b : UInt8} (hb : p.byte? m.pc = some b)
    (h : m.dispatch p b = .fault m' events cause) : Failure p m m' events cause := by
  have hop := Program.opcode?_of_byte? hb
  unfold dispatch at h
  split at h
  next op hbyte =>
    obtain ⟨rest, hexecute, rfl⟩ := after_eq_fault h
    exact execute_failure (hop.trans hbyte) hexecute
  next => cases h

end Inversion

end PixelCode.Machine
