import PixelCode.Proofs.Program.Clauses
import PixelCode.Proofs.Structured.Layout

/-! The forward scans pass over whole statements and find the ends that the nesting gives. -/
namespace PixelCode

namespace Program

variable {p : Program} {pc : Nat}

/-- A scan for the end of a clause steps over what neither opens nor closes a scope. -/
theorem clauseEndFrom?_of_other (hin : pc < p.size)
    (hop : ∀ op, p.opcode? pc = some op → op ≠ .openTry ∧ op ≠ .clause ∧ op ≠ .endTry)
    (depth : Nat) : p.clauseEndFrom? depth pc = p.clauseEndFrom? depth (p.next pc) := by
  rw [clauseEndFrom?.eq_def p depth pc, if_pos hin]
  split
  next h => exact absurd rfl (hop _ h).1
  next h => exact absurd rfl (hop _ h).2.1
  next h => exact absurd rfl (hop _ h).2.2
  next h => exact absurd rfl (hop _ h).2.2
  next => rfl

private theorem clauseEndFrom?_of_opcode {op : Opcode} (hop : p.opcode? pc = some op)
    (hother : op ≠ .openTry ∧ op ≠ .clause ∧ op ≠ .endTry) (depth : Nat) :
    p.clauseEndFrom? depth pc = p.clauseEndFrom? depth (pc + 1 + op.operands) := by
  rw [← next_of_opcode? hop hother.2.1]
  refine clauseEndFrom?_of_other (lt_size_of_opcode? hop) (fun op' hop' => ?_) depth
  rw [hop] at hop'
  cases hop'
  exact hother

private theorem clauseEndFrom?_of_openTry (hop : p.opcode? pc = some .openTry) (depth : Nat) :
    p.clauseEndFrom? depth pc = p.clauseEndFrom? (depth + 1) (pc + 1) := by
  rw [clauseEndFrom?.eq_def p depth pc, if_pos (lt_size_of_opcode? hop), hop]
  exact congrArg _ (next_of_opcode? hop (by decide))

private theorem clauseEndFrom?_of_endTry (hop : p.opcode? pc = some .endTry) (depth : Nat) :
    p.clauseEndFrom? (depth + 1) pc = p.clauseEndFrom? depth (pc + 1) := by
  rw [clauseEndFrom?.eq_def p (depth + 1) pc, if_pos (lt_size_of_opcode? hop), hop]
  exact congrArg _ (next_of_opcode? hop (by decide))

private theorem clauseEndFrom?_of_clause (hop : p.opcode? pc = some .clause) (depth : Nat) :
    p.clauseEndFrom? (depth + 1) pc = p.clauseEndFrom? (depth + 1) (p.next pc) := by
  rw [clauseEndFrom?.eq_def p (depth + 1) pc, if_pos (lt_size_of_opcode? hop), hop]
  rfl

private theorem firstReturn?_of_other (hin : pc < p.size) (hop : p.opcode? pc ≠ some .ret) :
    p.firstReturn? pc = p.firstReturn? (p.next pc) := by
  rw [firstReturn?, if_pos hin, if_neg hop]

private theorem firstReturn?_of_opcode {op : Opcode} (hop : p.opcode? pc = some op)
    (hother : op ≠ .clause ∧ op ≠ .ret) :
    p.firstReturn? pc = p.firstReturn? (pc + 1 + op.operands) := by
  have hret : p.opcode? pc ≠ some .ret := by
    rw [hop]
    exact fun h => hother.2 (Option.some.inj h)
  rw [firstReturn?_of_other (lt_size_of_opcode? hop) hret, next_of_opcode? hop hother.1]

private theorem firstReturn?_of_ret (hop : p.opcode? pc = some .ret) :
    p.firstReturn? pc = some pc := by
  rw [firstReturn?, if_pos (lt_size_of_opcode? hop), if_pos hop]

end Program

namespace Structured
open Program

variable {p : Program}

section Heads
variable {types : Types} {pc : Nat}

private theorem Types.clauseEndFrom?_eq (h : p.HoldsAt pc types.bytes) (depth : Nat) :
    p.clauseEndFrom? (depth + 1) pc = p.clauseEndFrom? (depth + 1) (pc + types.bytes.length) := by
  rw [clauseEndFrom?_of_clause (Types.holdsAt h).1, Types.next h]

private theorem Types.firstReturn?_eq (h : p.HoldsAt pc types.bytes) :
    p.firstReturn? pc = p.firstReturn? (pc + types.bytes.length) := by
  have hop := (Types.holdsAt h).1
  rw [firstReturn?_of_other (lt_size_of_opcode? hop) (by simp [hop]), Types.next h]

end Heads

mutual

/-- The scan for the end of a clause passes over a statement. -/
theorem Stmt.clauseEndFrom?_eq {defs : Bool} (st : Stmt defs) {pc : Nat}
    (h : p.HoldsAt pc st.flatten) (depth : Nat) :
    p.clauseEndFrom? depth pc = p.clauseEndFrom? depth (pc + st.flatten.length) := by
  match st with
  | .atom a =>
    obtain ⟨hin, hnext, hop⟩ := Atom.located h
    rw [clauseEndFrom?_of_other hin fun op hsome =>
      ⟨(hop op hsome).1, (hop op hsome).2.1, (hop op hsome).2.2.1⟩, hnext]
    rfl
  | .call id =>
    have hcall : p.opcode? pc = some .call := opcode?_of_holdsAt h
    exact clauseEndFrom?_of_opcode hcall (by decide) depth
  | .attempt body types handler others =>
    obtain ⟨hopen, hbody, hrest⟩ := Stmt.located_attempt h
    obtain ⟨htypes, hhandler, hothers⟩ := Clauses.located_scope hrest
    obtain ⟨hothers, hend⟩ := holdsAt_append.1 hothers
    have hend := opcode?_of_holdsAt hend
    rw [clauseEndFrom?_of_openTry hopen, body.clauseEndFrom?_eq hbody,
      Types.clauseEndFrom?_eq htypes, handler.clauseEndFrom?_eq hhandler,
      others.clauseEndFrom?_eq hothers, clauseEndFrom?_of_endTry hend]
    simp only [Stmt.flatten, List.length_cons, List.length_append, List.length_nil]
    congr 1
    omega
  | .define id body =>
    obtain ⟨hfunc, -, hbody⟩ := Stmt.located_define h
    obtain ⟨hbody, hret⟩ := holdsAt_append.1 hbody
    have hret := opcode?_of_holdsAt hret
    rw [clauseEndFrom?_of_opcode hfunc (by decide)]
    refine (body.clauseEndFrom?_eq hbody depth).trans ?_
    rw [clauseEndFrom?_of_opcode hret (by decide)]
    simp only [Stmt.flatten, List.length_cons, List.length_append, List.length_nil, Opcode.operands]
    congr 1
    omega
termination_by structural st

private theorem Block.clauseEndFrom?_eq {defs : Bool} (block : Block defs) {pc : Nat}
    (h : p.HoldsAt pc block.flatten) (depth : Nat) :
    p.clauseEndFrom? depth pc = p.clauseEndFrom? depth (pc + block.flatten.length) := by
  match block with
  | .nil => rfl
  | .cons first rest =>
    obtain ⟨hfirst, hrest⟩ := Block.located_cons h
    rw [first.clauseEndFrom?_eq hfirst, rest.clauseEndFrom?_eq hrest, Block.flatten,
      List.length_append, Nat.add_assoc]
termination_by structural block

/-- Inside the scope that they belong to, clauses are passed over as well. -/
theorem Clauses.clauseEndFrom?_eq {defs : Bool} (clauses : Clauses defs) {pc : Nat}
    (h : p.HoldsAt pc clauses.flatten) (depth : Nat) :
    p.clauseEndFrom? (depth + 1) pc =
      p.clauseEndFrom? (depth + 1) (pc + clauses.flatten.length) := by
  match clauses with
  | .nil => rfl
  | .cons types handler rest =>
    obtain ⟨htypes, hhandler, hrest⟩ := Clauses.located_cons h
    rw [Types.clauseEndFrom?_eq htypes, handler.clauseEndFrom?_eq hhandler,
      rest.clauseEndFrom?_eq hrest, Clauses.flatten]
    simp only [List.length_append, Nat.add_assoc]
termination_by structural clauses

end

mutual

/-- Where no function is defined, the scan for a return passes over a statement. -/
theorem Stmt.firstReturn?_eq {defs : Bool} (st : Stmt defs) (hdefs : defs = false) {pc : Nat}
    (h : p.HoldsAt pc st.flatten) :
    p.firstReturn? pc = p.firstReturn? (pc + st.flatten.length) := by
  match st with
  | .atom a =>
    obtain ⟨hin, hnext, hop⟩ := Atom.located h
    rw [firstReturn?_of_other hin fun hsome => (hop _ hsome).2.2.2 rfl, hnext]
    rfl
  | .call id =>
    have hcall : p.opcode? pc = some .call := opcode?_of_holdsAt h
    exact firstReturn?_of_opcode hcall (by decide)
  | .attempt body types handler others =>
    obtain ⟨hopen, hbody, hrest⟩ := Stmt.located_attempt h
    obtain ⟨htypes, hhandler, hothers⟩ := Clauses.located_scope hrest
    obtain ⟨hothers, hend⟩ := holdsAt_append.1 hothers
    have hend := opcode?_of_holdsAt hend
    rw [firstReturn?_of_opcode hopen (by decide)]
    refine (body.firstReturn?_eq hdefs hbody).trans ?_
    rw [Types.firstReturn?_eq htypes, handler.firstReturn?_eq hdefs hhandler,
      others.firstReturn?_eq hdefs hothers, firstReturn?_of_opcode hend (by decide)]
    simp only [Stmt.flatten, List.length_cons, List.length_append, List.length_nil, Opcode.operands]
    congr 1
    omega
  | .define id body => cases hdefs
termination_by structural st

private theorem Block.firstReturn?_eq {defs : Bool} (block : Block defs) (hdefs : defs = false)
    {pc : Nat} (h : p.HoldsAt pc block.flatten) :
    p.firstReturn? pc = p.firstReturn? (pc + block.flatten.length) := by
  match block with
  | .nil => rfl
  | .cons first rest =>
    obtain ⟨hfirst, hrest⟩ := Block.located_cons h
    rw [first.firstReturn?_eq hdefs hfirst, rest.firstReturn?_eq hdefs hrest, Block.flatten,
      List.length_append, Nat.add_assoc]
termination_by structural block

private theorem Clauses.firstReturn?_eq {defs : Bool} (clauses : Clauses defs)
    (hdefs : defs = false) {pc : Nat} (h : p.HoldsAt pc clauses.flatten) :
    p.firstReturn? pc = p.firstReturn? (pc + clauses.flatten.length) := by
  match clauses with
  | .nil => rfl
  | .cons types handler rest =>
    obtain ⟨htypes, hhandler, hrest⟩ := Clauses.located_cons h
    rw [Types.firstReturn?_eq htypes, handler.firstReturn?_eq hdefs hhandler,
      rest.firstReturn?_eq hdefs hrest, Clauses.flatten]
    simp only [List.length_append, Nat.add_assoc]
termination_by structural clauses

end

section Scans
variable {defs : Bool} {pc : Nat}

/-- A function ends with the return after its block. -/
theorem Block.firstReturn?_end {body : Block false}
    (h : p.HoldsAt pc (body.flatten ++ [Opcode.ret.byte])) :
    p.firstReturn? pc = some (pc + body.flatten.length) := by
  obtain ⟨hbody, hret⟩ := holdsAt_append.1 h
  rw [body.firstReturn?_eq rfl hbody, firstReturn?_of_ret (opcode?_of_holdsAt hret)]

/-- The opcode that the rest of a scope starts with. -/
theorem Clauses.opcode?_scope (clauses : Clauses defs)
    (h : p.HoldsAt pc (clauses.flatten ++ [Opcode.endTry.byte])) :
    p.opcode? pc = some .clause ∧ clauses ≠ .nil ∨ p.opcode? pc = some .endTry ∧ clauses = .nil := by
  cases clauses with
  | nil => exact .inr ⟨opcode?_of_holdsAt h, rfl⟩
  | cons types handler rest => exact .inl ⟨opcode?_of_holdsAt h, by simp⟩

/-- A block in a scope ends where the rest of the scope starts. -/
theorem Block.clauseEnd?_eq {block : Block defs} {clauses : Clauses defs}
    (hblock : p.HoldsAt pc block.flatten)
    (hrest : p.HoldsAt (pc + block.flatten.length) (clauses.flatten ++ [Opcode.endTry.byte])) :
    p.clauseEnd? pc = some (pc + block.flatten.length) := by
  rw [clauseEnd?, block.clauseEndFrom?_eq hblock, ← clauseEnd?]
  rcases clauses.opcode?_scope hrest with ⟨hop, -⟩ | ⟨hop, -⟩
  · exact clauseEnd?_of_end (.inl hop)
  · exact clauseEnd?_of_end (.inr hop)

/-- The first clause of a scope follows its block. -/
theorem Block.firstClause?_eq {body handler : Block defs} {types : Types} {others : Clauses defs}
    (hbody : p.HoldsAt pc body.flatten)
    (hrest : p.HoldsAt (pc + body.flatten.length)
      ((Clauses.cons types handler others).flatten ++ [Opcode.endTry.byte])) :
    p.firstClause? pc = some (pc + body.flatten.length) := by
  have hend := Block.clauseEnd?_eq hbody hrest
  rw [clauseEnd?] at hend
  rw [firstClause?, clauseFrom?_eq, hend, Option.filter,
    if_pos (decide_eq_true (opcode?_of_holdsAt hrest))]

private theorem declares_eq {e : Exception} {codes : List UInt8} (h : p.HoldsAt pc codes) :
    p.declares e pc codes.length = .ok (codes.contains e.code) := by
  induction codes generalizing pc with
  | nil => rfl
  | cons code codes ih =>
    rw [List.length_cons, declares, h.1, List.contains_cons]
    by_cases hcode : code = e.code
    · simp [hcode]
    · simp [hcode, Ne.symm hcode, ih h.2]

private theorem Types.acceptingClause_of_accepts {types : Types} {e : Exception}
    (h : p.HoldsAt pc types.bytes) (haccepts : types.accepts e = true) :
    p.acceptingClause e pc = .ok (some pc) := by
  obtain ⟨-, hcount, hcodes⟩ := Types.holdsAt h
  rw [acceptingClause.eq_def, hcount]
  dsimp only
  split
  next => rfl
  next hzero =>
    have hcontains : types.codes.contains e.code = true := by
      rw [Types.accepts, Bool.or_eq_true] at haccepts
      refine haccepts.resolve_left fun hempty => hzero ?_
      rw [List.isEmpty_iff.1 hempty]
      rfl
    rw [types.count_toNat, declares_eq hcodes, hcontains]

private theorem Types.acceptingClause_of_refuses {types : Types} {e : Exception} {q : Nat}
    (h : p.HoldsAt pc types.bytes) (hrefuses : types.accepts e = false)
    (hend : p.clauseEnd? (pc + types.bytes.length) = some q) :
    p.acceptingClause e pc =
      if p.opcode? q = some .endTry then .ok none else p.acceptingClause e q := by
  obtain ⟨-, hcount, hcodes⟩ := Types.holdsAt h
  rw [Types.accepts, Bool.or_eq_false_iff] at hrefuses
  have hzero : UInt8.ofNat types.codes.length ≠ 0 := by
    intro hzero
    have hlength := types.count_toNat
    rw [hzero] at hlength
    exact absurd (List.isEmpty_iff_length_eq_zero.2 hlength.symm) (by simp [hrefuses.1])
  rw [acceptingClause_eq, clauseTakes, hcount]
  dsimp only
  rw [if_neg hzero, types.count_toNat, declares_eq hcodes, hrefuses.2]
  dsimp only
  rw [Types.next h, hend]

/-- No clause of a scope is found if the structure selects none. -/
theorem Clauses.acceptingClause_of_select_none {defs : Bool} {types : Types}
    {handler : Block defs} {pc : Nat} (others : Clauses defs) {e : Exception}
    (h : p.HoldsAt pc ((Clauses.cons types handler others).flatten ++ [Opcode.endTry.byte]))
    (hselect : (Clauses.cons types handler others).select e = none) :
    p.acceptingClause e pc = .ok none := by
  obtain ⟨htypes, hhandler, hrest⟩ := Clauses.located_scope h
  rw [Clauses.select] at hselect
  split at hselect
  next => cases hselect
  next hrefuses =>
    rw [Types.acceptingClause_of_refuses htypes (by simpa using hrefuses)
      (Block.clauseEnd?_eq hhandler hrest)]
    match others with
    | .nil => exact if_pos (opcode?_of_holdsAt hrest)
    | .cons types' handler' rest =>
      rw [if_neg (by simp [opcode?_of_holdsAt hrest])]
      exact Clauses.acceptingClause_of_select_none rest hrest hselect
termination_by structural others

/-- The clause of a scope that the structure selects is the one found. -/
theorem Clauses.acceptingClause_of_select_some {defs : Bool} {types : Types}
    {handler taken : Block defs} {pc : Nat} (others : Clauses defs) {e : Exception}
    (h : p.HoldsAt pc ((Clauses.cons types handler others).flatten ++ [Opcode.endTry.byte]))
    (hselect : (Clauses.cons types handler others).select e = some taken) :
    ∃ target types' rest, p.acceptingClause e pc = .ok (some target) ∧
      p.HoldsAt target ((Clauses.cons types' taken rest).flatten ++ [Opcode.endTry.byte]) ∧
      target + (Clauses.cons types' taken rest).flatten.length =
        pc + (Clauses.cons types handler others).flatten.length := by
  obtain ⟨htypes, hhandler, hrest⟩ := Clauses.located_scope h
  rw [Clauses.select] at hselect
  split at hselect
  next haccepts =>
    cases hselect
    exact ⟨pc, types, others, Types.acceptingClause_of_accepts htypes haccepts, h, rfl⟩
  next hrefuses =>
    rw [Types.acceptingClause_of_refuses htypes (by simpa using hrefuses)
      (Block.clauseEnd?_eq hhandler hrest)]
    match others with
    | .nil => cases hselect
    | .cons types' handler' rest =>
      rw [if_neg (by simp [opcode?_of_holdsAt hrest])]
      obtain ⟨target, types'', rest', hfound, hholds, hend⟩ :=
        Clauses.acceptingClause_of_select_some rest hrest hselect
      refine ⟨target, types'', rest', hfound, hholds, hend.trans ?_⟩
      simp only [Clauses.flatten, List.length_append]
      omega
termination_by structural others

end Scans

end Structured
end PixelCode
