import Mathlib.Algebra.Order.Ring.Nat
import PixelCode.Proofs.Machine.Alignment

/-! Runs without calls end. An exception may be routed backwards, but only once for each execution of
its scope's start, and always to a clause behind that start; so a weight that counts positions with
powers of three falls with every instruction. -/
namespace PixelCode

def Scope.weight (p : Program) (s : Scope) : Nat :=
  if s.spent then 0 else 3 ^ (p.size - s.clause)

private theorem Scope.weight_of_spent {p : Program} {s : Scope} (h : s.spent = true) :
    s.weight p = 0 :=
  if_pos h

private theorem Scope.weight_of_fresh {p : Program} {s : Scope} (h : s.spent = false) :
    s.weight p = 3 ^ (p.size - s.clause) := by
  rw [weight, h]; rfl

namespace Machine

def weight (p : Program) (m : Machine) : Nat :=
  3 ^ (p.size - m.pc) + (m.scopes.map (·.weight p)).sum

structure Uncalled (p : Program) (m : Machine) : Prop extends Aligned p m where
  none_called : m.calls = #[]

variable {p : Program} {m m' : Machine}

private theorem pow_lt_of_pc {q : Nat} (hin : m.pc < p.size) (hq : m.pc < q) :
    3 ^ (p.size - q) < 3 ^ (p.size - m.pc) :=
  Nat.pow_lt_pow_right (by decide) (by omega)

/-- Control that moves on without new scopes weighs less. -/
private theorem weight_lt_of_pc (hin : m.pc < p.size) (hpc : m.pc < m'.pc)
    (hscopes : (m'.scopes.map (·.weight p)).sum ≤ (m.scopes.map (·.weight p)).sum) :
    m'.weight p < m.weight p := by
  have := pow_lt_of_pc (p := p) hin hpc
  unfold weight
  omega

/-- The scope that takes an exception is among those that were counted, with the ones around it. -/
theorem Takes.weight_le {e : Exception} {scope : Scope} {outer scopes : List Scope} {target : Nat}
    (h : Takes p e scope outer target scopes) :
    3 ^ (p.size - scope.clause) + (outer.map (·.weight p)).sum ≤
      (scopes.map (·.weight p)).sum := by
  induction h with
  | here fresh => rw [List.map_cons, List.sum_cons, Scope.weight_of_fresh fresh]
  | further _ _ ih =>
    rw [List.map_cons, List.sum_cons]
    omega

/-- A scope whose start is executed costs less than the position that its start leaves behind. -/
private theorem openTry_weight {clause : Nat} (hin : m.pc < p.size) (hclause : m.pc < clause) :
    3 ^ (p.size - (m.pc + 1)) + 3 ^ (p.size - clause) < 3 ^ (p.size - m.pc) := by
  have hle : 3 ^ (p.size - clause) ≤ 3 ^ (p.size - (m.pc + 1)) :=
    Nat.pow_le_pow_right (by decide) (by omega)
  have hstep : 3 ^ (p.size - m.pc) = 3 * 3 ^ (p.size - (m.pc + 1)) := by
    rw [show p.size - m.pc = p.size - (m.pc + 1) + 1 by omega, Nat.pow_succ, Nat.mul_comm]
  have hpos : 0 < 3 ^ (p.size - (m.pc + 1)) := Nat.pow_pos (by decide)
  omega

/-- Without calls on the walk, every move lowers the weight, and no call comes to be in progress. -/
theorem Uncalled.move (hcalls : ∀ q ∈ p.walk 0, p.opcode? q ≠ some .call) (h : Uncalled p m)
    (hmove : Move p m m') : Uncalled p m' ∧ m'.weight p < m.weight p := by
  have haligned := h.toAligned.move hmove
  cases hmove with
  | plain stack inside =>
    have hin : m.pc < p.size := Nat.lt_of_lt_of_le (p.lt_next m.pc) inside
    exact ⟨⟨haligned, h.none_called⟩, weight_lt_of_pc hin (p.lt_next m.pc) (Nat.le_refl _)⟩
  | store id v op =>
    have hin := Program.lt_size_of_opcode? op
    exact ⟨⟨haligned, h.none_called⟩,
      weight_lt_of_pc hin (show m.pc < m.pc + 2 by omega) (Nat.le_refl _)⟩
  | define id ret op operand found =>
    have hin := Program.lt_size_of_opcode? op
    have hret := (p.mem_walk_bounds _ ret (Program.firstReturn?_eq_some found).1).1
    exact ⟨⟨haligned, h.none_called⟩,
      weight_lt_of_pc hin (show m.pc < ret + 1 by omega) (Nat.le_refl _)⟩
  | call id entry op =>
    exact absurd op (hcalls m.pc (h.pc.mem_walk (Program.lt_size_of_opcode? op)))
  | ret address op back =>
    rw [h.none_called] at back
    cases back
  | openTry clause op found =>
    have hin := Program.lt_size_of_opcode? op
    have hclause := (p.mem_walk_bounds _ clause (Program.firstClause?_eq_some found).1).1
    refine ⟨⟨haligned, h.none_called⟩, ?_⟩
    have := openTry_weight hin (show m.pc < clause by omega)
    have hnew : Scope.weight p ⟨clause, m.stack.size, m.calls.size, [], false⟩ =
      3 ^ (p.size - clause) := Scope.weight_of_fresh rfl
    simp only [weight, List.map_cons, List.sum_cons, hnew]
    omega
  | enter scope outer accepts op inside open_ =>
    have hin := Program.lt_size_of_opcode? op
    exact ⟨⟨haligned, h.none_called⟩,
      weight_lt_of_pc hin (p.lt_next m.pc) (by rw [open_]; exact Nat.le_refl _)⟩
  | pass scope outer accepts q op inside open_ settled found =>
    have hin := Program.lt_size_of_opcode? op
    have hq := (p.mem_walk_bounds _ q (Program.clauseEnd?_eq_some found).1).1
    exact ⟨⟨haligned, h.none_called⟩,
      weight_lt_of_pc hin (Nat.lt_of_lt_of_le (p.lt_next m.pc) hq)
        (by rw [open_]; exact Nat.le_refl _)⟩
  | endTry op =>
    have hin := Program.lt_size_of_opcode? op
    refine ⟨⟨haligned, h.none_called⟩, weight_lt_of_pc hin (Nat.lt_succ_self m.pc) ?_⟩
    cases m.scopes with
    | nil => exact Nat.le_refl _
    | cons s rest => simp
  | raise scope outer target op taken =>
    have hclause := (h.scopes scope taken.mem.1).2
    have htarget := (p.mem_walk_bounds _ target
      (Program.acceptingClause_eq_some hclause taken.found.2).1).1
    refine ⟨⟨haligned, by simp [h.none_called]⟩, ?_⟩
    have hle : 3 ^ (p.size - target) ≤ 3 ^ (p.size - scope.clause) :=
      Nat.pow_le_pow_right (by decide) (by omega)
    have hsum := taken.weight_le
    have hpos : 0 < 3 ^ (p.size - m.pc) := Nat.pow_pos (by decide)
    have hspent : Scope.weight p { scope with spent := true } = 0 := Scope.weight_of_spent rfl
    simp only [weight, List.map_cons, List.sum_cons, hspent]
    omega

/-- A program without calls on its walk ends after at most `3 ^ p.size` instructions, whatever scopes,
functions and returns it has and however they are nested. -/
theorem run_ends_without_calls (m : Machine) (p : Program)
    (hcalls : ∀ q ∈ p.walk 0, p.opcode? q ≠ some .call) (out : Sink) (trace : Trace) :
    ∃ r, m.run p (3 ^ p.size + 1) out trace = some r := by
  have hstart : Uncalled p initial := ⟨.initial p, rfl⟩
  have hweight : weight p initial < 3 ^ p.size + 1 := by simp [weight, initial]
  exact runFrom_eq_some_of_measure (fun hmove h => h.move hcalls hmove) hstart hweight out _

/-- A function inside a scope skips the scope's own clause, so that the division at the end of the
program unwinds backwards; the run still ends. -/
theorem run_ends_backward_unwind :
    ∃ r, initial.run (.ofList [0x70, 0x52, 0, 0x71, 0, 0x72, 0x51, 0x01, 1, 0x01, 0, 0x13])
      (3 ^ 12 + 1) .unlimited (.start none) = some r :=
  run_ends_without_calls initial _ (by decide +kernel) .unlimited (.start none)

end Machine
end PixelCode
