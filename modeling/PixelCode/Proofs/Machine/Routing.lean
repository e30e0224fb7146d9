import PixelCode.Machine.Step
import PixelCode.Proofs.Machine.Storage
import PixelCode.Proofs.Program.Clauses

/-! Where a raised exception goes. The open scopes are asked from the innermost one outward, and the first
that does not let the exception pass decides: the run goes on at the clause it found, or fails as its search
failed. The scopes inside it are gone then, and those around it have not been touched. -/
namespace PixelCode

def Scope.Passes (p : Program) (e : Exception) (s : Scope) : Prop :=
  s.spent = true ∨ p.acceptingClause e s.clause = .ok none

/-- A fresh scope that does not let an exception pass has found a clause, or failed to read its clauses. -/
theorem Scope.of_not_passes {p : Program} {e : Exception} {s : Scope} (h : ¬ s.Passes p e) :
    s.spent = false ∧
      ((∃ cause, p.acceptingClause e s.clause = .error cause) ∨
        ∃ target, p.acceptingClause e s.clause = .ok (some target)) := by
  obtain ⟨hfresh, hsome⟩ := not_or.1 h
  refine ⟨Bool.eq_false_iff.2 hfresh, ?_⟩
  cases hfound : p.acceptingClause e s.clause with
  | error cause => exact .inl ⟨cause, rfl⟩
  | ok target? =>
    cases target? with
    | none => exact absurd hfound hsome
    | some target => exact .inr ⟨target, rfl⟩

namespace Machine

/-- `s` is the innermost of some scopes that does not let an exception pass, and `outer` are those around
it. -/
def Decides (p : Program) (e : Exception) (scopes : List Scope) (s : Scope) (outer : List Scope) : Prop :=
  ∃ inner, scopes = inner ++ s :: outer ∧ (∀ t ∈ inner, t.Passes p e) ∧ ¬ s.Passes p e

/-- The state `m'` after an exception in `m` was routed to a clause of the scope `s`. The saved depths of the
scope may be greater than those in `m`, and nothing is added to the stacks then. -/
structure Routed (m : Machine) (s : Scope) (outer : List Scope) (target : Nat) (m' : Machine) : Prop where
  pc : m'.pc = target
  unwinding : m'.unwinding = true
  scopes : m'.scopes = { s with spent := true } :: outer
  stack : m'.stack.toList = m.stack.toList.take (min m.stack.size s.depth)
  calls : m'.calls.toList = m.calls.toList.take (min m.calls.size s.calls)
  vars : m'.vars = m.vars
  functions : m'.functions = m.functions

variable {p : Program} {e : Exception} {s : Scope} {inner outer scopes : List Scope} {target : Nat}

section Search

/-- A scope that is spent or has no clause for an exception does not stop it. -/
theorem raiseTo_cons (hpass : s.Passes p e) (m : Machine) :
    raiseTo p e m (s :: scopes) = raiseTo p e m scopes := by
  rw [raiseTo]
  rcases hpass with hspent | hnone
  · rw [if_pos hspent]
  · simp only [hnone, ite_self]

private theorem raiseTo_append (hpass : ∀ s ∈ inner, s.Passes p e) (m : Machine) :
    raiseTo p e m (inner ++ scopes) = raiseTo p e m scopes := by
  induction inner with
  | nil => rfl
  | cons s inner ih =>
    obtain ⟨hs, hinner⟩ := List.forall_mem_cons.1 hpass
    rw [List.cons_append, raiseTo_cons hs, ih hinner]

theorem raiseTo_here (hfresh : s.spent = false)
    (htarget : p.acceptingClause e s.clause = .ok (some target)) (m : Machine) :
    raiseTo p e m (s :: scopes) =
      .next { m with
        pc := target
        stack := m.stack.truncate s.depth
        calls := m.calls.shrink s.calls
        scopes := { s with spent := true } :: scopes
        unwinding := true } [.handled target s.depth] "" := by
  rw [raiseTo, hfresh]
  simp only [htarget]
  rfl

private theorem raiseTo_broken {cause : Fault.Cause} (hfresh : s.spent = false)
    (hfailed : p.acceptingClause e s.clause = .error cause) (m : Machine) :
    raiseTo p e m (s :: scopes) = .fault { m with scopes := s :: scopes } [] cause := by
  rw [raiseTo, hfresh]
  simp only [hfailed]
  rfl

/-- All scopes let an exception pass, or one of them decides. -/
theorem passes_or_decides (p : Program) (e : Exception) (scopes : List Scope) :
    (∀ s ∈ scopes, s.Passes p e) ∨ ∃ s outer, Decides p e scopes s outer := by
  induction scopes with
  | nil => exact .inl (List.forall_mem_nil _)
  | cons s scopes ih =>
    by_cases hs : s.Passes p e
    · rcases ih with hall | ⟨t, outer, inner, rfl, hinner, ht⟩
      · exact .inl (List.forall_mem_cons.2 ⟨hs, hall⟩)
      · exact .inr ⟨t, outer, s :: inner, rfl, List.forall_mem_cons.2 ⟨hs, hinner⟩, ht⟩
    · exact .inr ⟨s, scopes, [], rfl, List.forall_mem_nil _, hs⟩

end Search

/-- An exception goes to the innermost scope that does not let it pass, and to nothing else. If all let it pass,
it is unhandled and no scope is left. If that scope cannot read its clauses, its fault is the fault of the
instruction, and only the scopes inside it are gone. Otherwise the run goes on at the clause it found. -/
theorem raise_to_innermost (p : Program) (e : Exception) (m : Machine) :
    (∀ s ∈ m.scopes, s.Passes p e) ∧
        m.raise p e = .fault { m with scopes := [] } [.raised e m.pc] (.unhandled e) ∨
      ∃ s outer, Decides p e m.scopes s outer ∧
        ((∃ cause, p.acceptingClause e s.clause = .error cause ∧
            m.raise p e = .fault { m with scopes := s :: outer } [.raised e m.pc] cause) ∨
          ∃ target m', p.acceptingClause e s.clause = .ok (some target) ∧
            m.raise p e = .next m' [.raised e m.pc, .handled target s.depth] "" ∧
            Routed m s outer target m' ∧
            (p.opcode? s.clause = some .clause → p.opcode? target = some .clause)) := by
  rcases passes_or_decides p e m.scopes with hall | ⟨s, outer, inner, hscopes, hinner, hstops⟩
  · have hescapes : raiseTo p e m m.scopes = raiseTo p e m [] := by
      have happend : raiseTo p e m (m.scopes ++ []) = raiseTo p e m [] := raiseTo_append hall m
      rwa [List.append_nil] at happend
    refine .inl ⟨hall, ?_⟩
    rw [raise, hescapes]
    rfl
  · refine .inr ⟨s, outer, ⟨inner, hscopes, hinner, hstops⟩, ?_⟩
    rw [raise, hscopes, raiseTo_append hinner]
    obtain ⟨hfresh, ⟨cause, hfailed⟩ | ⟨target, hfound⟩⟩ := Scope.of_not_passes hstops
    · refine .inl ⟨cause, hfailed, ?_⟩
      rw [raiseTo_broken hfresh hfailed]
      rfl
    · refine .inr ⟨target, _, hfound, congrArg (Step.after _) (raiseTo_here hfresh hfound m), ?_, ?_⟩
      · have hstack : (m.stack.truncate s.depth).toList = m.stack.toList.take (min m.stack.size s.depth) := by
          rw [Stack.toList_truncate, List.take_eq_take_min, Stack.size_eq, Nat.min_comm]
        have hcalls : (m.calls.shrink s.calls).toList = m.calls.toList.take (min m.calls.size s.calls) := by
          rw [Array.toList_shrink, List.take_eq_take_min, Array.length_toList, Nat.min_comm]
        exact ⟨rfl, rfl, rfl, hstack, hcalls, rfl, rfl⟩
      · intro hclause
        exact (Program.acceptingClause_eq_some hclause hfound).2

end Machine
end PixelCode
