import Mathlib.Data.List.Find
import PixelCode.Proofs.Program.Sweep

/-! The nesting of scopes along the walk. The clause scans count the inner scopes that are open. Their
count is the number of scopes opened less those closed on the way, and so they stop at the first end of
a clause that no inner scope contains. Only the bytes from the start on matter to them. -/
namespace PixelCode.Program

def EndsClause (p : Program) (pc : Nat) : Prop :=
  p.opcode? pc = some .clause ∨ p.opcode? pc = some .endTry

instance (p : Program) (pc : Nat) : Decidable (p.EndsClause pc) :=
  inferInstanceAs (Decidable (_ ∨ _))

/-- How many scopes the walk from `start` opens before `q`, less how many it closes there. More ends
than openings make it negative. -/
def depthAt (p : Program) (start q : Nat) : Int :=
  let before := (p.walk start).filter (· < q)
  before.countP (fun r => p.opcode? r = some .openTry) -
    before.countP (fun r => p.opcode? r = some .endTry)

def turn (p : Program) (pc : Nat) : Int :=
  (if p.opcode? pc = some .openTry then 1 else 0) - if p.opcode? pc = some .endTry then 1 else 0

def drop (p : Program) (n : Nat) : Program := ofList (p.toList.drop n)

variable {p : Program} {depth pc q : Nat}

section Depth

private theorem turn_of_openTry (h : p.opcode? pc = some .openTry) : p.turn pc = 1 := by
  rw [turn, h]; rfl

private theorem turn_of_endTry (h : p.opcode? pc = some .endTry) : p.turn pc = -1 := by
  rw [turn, h]; rfl

private theorem turn_of_other (hopen : p.opcode? pc ≠ some .openTry)
    (hend : p.opcode? pc ≠ some .endTry) : p.turn pc = 0 := by
  rw [turn, if_neg hopen, if_neg hend]; rfl

private theorem depthAt_self (p : Program) (pc : Nat) : p.depthAt pc pc = 0 := by
  have hnone : (p.walk pc).filter (· < pc) = [] := by
    refine List.filter_eq_nil_iff.2 fun q hq => ?_
    have := (p.mem_walk_bounds pc q hq).1
    simp only [decide_eq_true_eq]
    omega
  rw [depthAt, hnone]
  rfl

/-- A position behind the first instruction lies as deep as the walk from the second one says, once
the first is counted. -/
theorem depthAt_of_lt (hin : pc < p.size) (hq : pc < q) :
    p.depthAt pc q = p.turn pc + p.depthAt (p.next pc) q := by
  have hbefore : (p.walk pc).filter (· < q) = pc :: (p.walk (p.next pc)).filter (· < q) := by
    rw [walk, if_pos hin, List.filter_cons, if_pos (decide_eq_true hq)]
  rw [depthAt, depthAt, hbefore]
  simp only [List.countP_cons, turn, decide_eq_true_eq]
  split <;> split <;> omega

private theorem lt_of_mem_walk_next (hq : q ∈ p.walk (p.next pc)) : pc < q :=
  Nat.lt_of_lt_of_le (p.lt_next pc) (p.mem_walk_bounds _ q hq).1

end Depth

section Count

/-- Unless it stops there, the scan goes on behind an instruction with the count that the nesting
gives; it never takes one from zero. -/
theorem clauseEndFrom?_step (hin : pc < p.size) (hends : ¬ (p.EndsClause pc ∧ depth = 0)) :
    ∃ depth' : Nat, (depth' : Int) = depth + p.turn pc ∧
      p.clauseEndFrom? depth pc = p.clauseEndFrom? depth' (p.next pc) := by
  rw [clauseEndFrom?.eq_def, if_pos hin]
  split
  next hop => exact ⟨_, by rw [turn_of_openTry hop]; rfl, rfl⟩
  next hop => exact absurd ⟨.inl hop, rfl⟩ hends
  next hop => exact absurd ⟨.inr hop, rfl⟩ hends
  next hop => exact ⟨_, by rw [turn_of_endTry hop]; omega, rfl⟩
  next depth _ _ hopen _ hzero hsucc =>
    have hend : p.opcode? pc ≠ some .endTry := by
      intro hop
      cases depth with
      | zero => exact hzero hop rfl
      | succ depth => exact hsucc depth hop rfl
    exact ⟨depth, by rw [turn_of_other hopen hend]; omega, rfl⟩

/-- The scan finds the first end of a clause at which its count, with the nesting on the way, has come
to zero. -/
theorem clauseEndFrom?_eq_find? (p : Program) (depth pc : Nat) :
    p.clauseEndFrom? depth pc =
      (p.walk pc).find? fun q => p.EndsClause q ∧ depth + p.depthAt pc q = 0 := by
  fun_induction walk p pc generalizing depth with
  | case1 pc hin ih =>
    have hself := p.depthAt_self pc
    by_cases hends : p.EndsClause pc ∧ depth = 0
    · obtain ⟨hends, rfl⟩ := hends
      rw [← clauseEnd?, clauseEnd?_of_end hends, List.find?_cons_of_pos]
      simp [hends, hself]
    · obtain ⟨depth', hdepth, hscan⟩ := clauseEndFrom?_step hin hends
      rw [hscan, ih, List.find?_cons_of_neg (by simpa [hself] using hends)]
      refine List.find?_congr fun q hq => ?_
      rw [depthAt_of_lt hin (lt_of_mem_walk_next hq), hdepth, Int.add_assoc]
  | case2 pc hout =>
    rw [clauseEndFrom?.eq_def, if_neg hout]
    rfl

/-- Up to where the scan stops, its count with the nesting on the way is never negative. -/
theorem depthAt_nonneg (p : Program) (depth pc : Nat) :
    ∀ q ∈ p.walk pc, (∀ r ∈ p.clauseEndFrom? depth pc, q ≤ r) → 0 ≤ depth + p.depthAt pc q := by
  fun_induction walk p pc generalizing depth with
  | case1 pc hin ih =>
    intro q hq hstop
    rcases List.mem_cons.1 hq with rfl | hq
    · rw [depthAt_self]
      omega
    · have hlt := lt_of_mem_walk_next hq
      have hends : ¬ (p.EndsClause pc ∧ depth = 0) := by
        rintro ⟨hends, rfl⟩
        have := hstop pc (clauseEnd?_of_end hends)
        omega
      obtain ⟨depth', hdepth, hscan⟩ := clauseEndFrom?_step hin hends
      have := ih depth' q hq (by rwa [← hscan])
      rw [depthAt_of_lt hin hlt]
      omega
  | case2 => simp

end Count

section Drop

private theorem byte?_drop (p : Program) (n pc : Nat) : (p.drop n).byte? pc = p.byte? (n + pc) := by
  rw [drop, byte?, ofList, List.getElem?_toArray, List.getElem?_drop]
  exact Array.getElem?_toList

private theorem opcode?_drop (p : Program) (n pc : Nat) :
    (p.drop n).opcode? pc = p.opcode? (n + pc) := by
  rw [opcode?, byte?_drop]
  rfl

private theorem operandCount_drop (p : Program) (n pc : Nat) :
    (p.drop n).operandCount pc = p.operandCount (n + pc) := by
  rw [operandCount, operandCount, opcode?_drop, byte?_drop]
  rfl

private theorem next_drop (p : Program) (n pc : Nat) :
    n + (p.drop n).next pc = p.next (n + pc) := by
  rw [next, next, operandCount_drop]
  omega

private theorem lt_size_drop {n : Nat} : pc < (p.drop n).size ↔ n + pc < p.size := by
  have hsize : (p.drop n).size = p.size - n := by
    simp [drop, size, ofList, toList]
  omega

/-- A sweep of what follows some bytes is the sweep behind them, with positions counted from there. -/
theorem sweep_drop (p : Program) (rule : Opcode → Nat → Verdict) (n depth pc : Nat) :
    p.sweep rule depth (n + pc) = ((p.drop n).sweep rule depth pc).map (n + ·) := by
  fun_induction sweep (p.drop n) rule depth pc with
  | case1 depth pc hin hop ih =>
    rw [opcode?_drop] at hop
    rw [sweep_of_unknown (lt_size_drop.1 hin) hop, ← next_drop, ih]
  | case2 depth pc hin op hop hfound =>
    rw [opcode?_drop] at hop
    rw [sweep_of_opcode? hop, hfound]
    rfl
  | case3 depth pc hin op hop hclosed =>
    rw [opcode?_drop] at hop
    rw [sweep_of_opcode? hop, hclosed]
    rfl
  | case4 depth pc hin op hop depth' hon ih =>
    rw [opcode?_drop] at hop
    rw [sweep_of_opcode? hop, hon, ← ih, next_drop]
  | case5 depth pc hout =>
    rw [sweep_of_size_le (Nat.not_lt.1 (mt lt_size_drop.2 hout))]
    rfl

end Drop

private theorem firstClause?_eq_some_iff {start : Nat} :
    p.firstClause? start = some q ↔ p.clauseEnd? start = some q ∧ p.opcode? q = some .clause := by
  rw [firstClause?, clauseFrom?_eq, Option.filter_eq_some_iff, decide_eq_true_eq]
  rfl

/-- What the clause scans find, by the nesting of scopes alone. The end of a clause is the first clause
or end of scope on the walk at depth zero; no position up to there has a negative depth. The first
clause of a scope is that end if a clause stands there. Neither depends on what is before the start. -/
theorem clause_scans_by_depth (p : Program) (start : Nat) :
    p.clauseEnd? start =
        (p.walk start).find? (fun q => p.EndsClause q ∧ p.depthAt start q = 0) ∧
      (∀ q ∈ p.walk start, (∀ r ∈ p.clauseEnd? start, q ≤ r) → 0 ≤ p.depthAt start q) ∧
      (∀ q, p.firstClause? start = some q ↔
        p.clauseEnd? start = some q ∧ p.opcode? q = some .clause) ∧
      p.clauseEnd? start = ((p.drop start).clauseEnd? 0).map (start + ·) ∧
      p.firstClause? start = ((p.drop start).firstClause? 0).map (start + ·) := by
  refine ⟨?_, ?_, fun q => firstClause?_eq_some_iff, ?_, ?_⟩
  · simpa [clauseEnd?] using p.clauseEndFrom?_eq_find? 0 start
  · simpa [clauseEnd?] using p.depthAt_nonneg 0 start
  · simp only [clauseEnd?, clauseEndFrom?_eq_sweep]
    exact p.sweep_drop clauseEndRule start 0 0
  · simp only [firstClause?, clauseFrom?_eq_sweep]
    exact p.sweep_drop clauseRule start 0 0

end PixelCode.Program
