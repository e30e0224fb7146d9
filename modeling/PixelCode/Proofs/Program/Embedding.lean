import PixelCode.Proofs.Machine.Alignment
import PixelCode.Proofs.Program.Sweep

/-! Programs whose instructions all stand in another program, and what the scans find there. -/
namespace PixelCode

def Fault.CoversScans (causes : Fault.Cause → Prop) : Prop :=
  causes .missingReturn ∧ causes .missingClause ∧ causes .unendedClause

/-- All instructions of `p` stand in `p'`, with nothing but unknown bytes between them. What follows
them in `p'` may keep a scan or an operand from being missed, and so spare it some faults. -/
structure Embedding (p p' : Program) where
  place : Nat → Nat
  resume : Nat → Nat
  Spared : Fault.Cause → Prop
  resume_zero : resume 0 = 0
  slides {a : Nat} : p.Boundary a → p'.Slides (resume a) (place a)
  byte?_place {pc : Nat} {b : UInt8} : p.byte? pc = some b → p'.byte? (place pc) = some b
  missing {pc : Nat} : p.byte? pc = none → p'.byte? (place pc) = none ∨ Spared .missingOperand
  place_add {s k : Nat} : s ∈ p.walk 0 → k ≤ p.operandCount s → place (s + k) = place s + k
  leave {s : Nat} : s ∈ p.walk 0 → p.next s ≤ p.size →
    place s + 1 + p.operandCount s = resume (p.next s)
  cut {s : Nat} : s ∈ p.walk 0 → p.size < p.next s →
    p'.Silent (p'.next (place s)) ∨ Fault.CoversScans Spared
  finish : p.Boundary p.size → p'.Silent (place p.size) ∨ Fault.CoversScans Spared

namespace Embedding
open Program

variable {p p' : Program} (e : Embedding p p') {s : Nat}

theorem opcode?_place (hin : s < p.size) : p'.opcode? (e.place s) = p.opcode? s := by
  obtain ⟨b, hb⟩ := byte?_eq_some_of_lt hin
  rw [opcode?_of_byte? hb, opcode?_of_byte? (e.byte?_place hb)]

theorem byte?_add {k : Nat} {b : UInt8} (hs : s ∈ p.walk 0) (hk : k ≤ p.operandCount s)
    (hb : p.byte? (s + k) = some b) : p'.byte? (e.place s + k) = some b := by
  rw [← e.place_add hs hk]
  exact e.byte?_place hb

theorem missing_add {k : Nat} (hs : s ∈ p.walk 0) (hk : k ≤ p.operandCount s)
    (hb : p.byte? (s + k) = none) :
    p'.byte? (e.place s + k) = none ∨ e.Spared .missingOperand := by
  rw [← e.place_add hs hk]
  exact e.missing hb

theorem operandCount_place (hs : s ∈ p.walk 0) (hle : p.next s ≤ p.size) :
    p'.operandCount (e.place s) = p.operandCount s := by
  have hop := e.opcode?_place (p.mem_walk_bounds 0 s hs).2
  cases hp : p.opcode? s with
  | none => rw [operandCount, operandCount, hop, hp]
  | some op =>
    rw [hp] at hop
    by_cases hclause : op = .clause
    · subst hclause
      have hone := one_le_operandCount_of_clause hp
      have hin : s + 1 < p.size := by unfold next at hle; omega
      obtain ⟨count, hcount⟩ := byte?_eq_some_of_lt hin
      rw [operandCount_of_clause hp hcount, operandCount_of_clause hop (e.byte?_add hs hone hcount)]
    · rw [operandCount_of_opcode? hp hclause, operandCount_of_opcode? hop hclause]

private theorem next_place (hs : s ∈ p.walk 0) (hle : p.next s ≤ p.size) :
    p'.next (e.place s) = e.resume (p.next s) := by
  rw [next, e.operandCount_place hs hle, e.leave hs hle]

theorem boundary_next (hs : s ∈ p.walk 0) (hle : p.next s ≤ p.size) : p.Boundary (p.next s) :=
  (Boundary.of_mem_walk hs).next (p.mem_walk_bounds 0 s hs).2 hle

/-- Control that leaves a whole instruction comes to the place of what follows. -/
theorem slides_next (hs : s ∈ p.walk 0) (hle : p.next s ≤ p.size) :
    p'.Slides (e.place s + 1 + p.operandCount s) (e.place (p.next s)) := by
  rw [e.leave hs hle]
  exact e.slides (boundary_next hs hle)

def Scans (found : Option Nat) (found' : Option Nat) : Prop :=
  found' = found.map e.place ∨ found = none ∧ Fault.CoversScans e.Spared

section Sweep
variable {rule : Opcode → Nat → Verdict}

/-- Where nothing is left of `p`, a sweep finds nothing in `p'` either, or is spared the fault. -/
theorem scans_none {depth pc pc' : Nat} (hout : p.size ≤ pc)
    (h : p'.Silent pc' ∨ Fault.CoversScans e.Spared) :
    e.Scans (p.sweep rule depth pc) (p'.sweep rule depth pc') := by
  have hnone : p.sweep rule depth pc = none := sweep_of_size_le hout
  rcases h with hsilent | hspared
  · exact .inl (by rw [hsilent.sweep_eq_none, hnone]; rfl)
  · exact .inr ⟨hnone, hspared⟩

/-- A sweep that goes on behind an instruction, whole or cut off. -/
theorem sweep_next {depth : Nat} (hs : s ∈ p.walk 0)
    (h : p.Boundary (p.next s) →
      e.Scans (p.sweep rule depth (p.next s)) (p'.sweep rule depth (e.place (p.next s)))) :
    e.Scans (p.sweep rule depth (p.next s)) (p'.sweep rule depth (p'.next (e.place s))) := by
  by_cases hle : p.next s ≤ p.size
  · have hnext := boundary_next hs hle
    rw [e.next_place hs hle, (e.slides hnext).sweep_eq]
    exact h hnext
  · exact e.scans_none (Nat.le_of_not_le hle) (e.cut hs (Nat.not_le.1 hle))

private theorem sweep_place (depth : Nat) {a : Nat} (h : p.Boundary a) :
    e.Scans (p.sweep rule depth a) (p'.sweep rule depth (e.place a)) := by
  by_cases hin : a < p.size
  · have ha := h.mem_walk hin
    have hlt := p.lt_next a
    have hop := e.opcode?_place hin
    cases hp : p.opcode? a with
    | none =>
      obtain ⟨b, hb⟩ := byte?_eq_some_of_lt hin
      have hin' := lt_size_of_byte? (e.byte?_place hb)
      rw [sweep_of_unknown hin hp, sweep_of_unknown hin' (hop.trans hp)]
      exact e.sweep_next ha (sweep_place depth)
    | some op =>
      rw [sweep_of_opcode? hp, sweep_of_opcode? (hop.trans hp)]
      cases rule op depth with
      | found => exact .inl rfl
      | closed => exact .inl rfl
      | on depth => exact e.sweep_next ha (sweep_place depth)
  · obtain rfl : a = p.size := Nat.le_antisymm h.le_size (Nat.not_lt.1 hin)
    exact e.scans_none (Nat.le_refl _) (e.finish h)
termination_by p.size - a

private theorem sweep_resume (depth : Nat) {a : Nat} (h : p.Boundary a) :
    e.Scans (p.sweep rule depth a) (p'.sweep rule depth (e.resume a)) := by
  rw [(e.slides h).sweep_eq]
  exact e.sweep_place depth h

end Sweep

theorem firstReturn?_resume {a : Nat} (h : p.Boundary a) :
    e.Scans (p.firstReturn? a) (p'.firstReturn? (e.resume a)) := by
  rw [firstReturn?_eq_sweep, firstReturn?_eq_sweep]
  exact e.sweep_resume 0 h

theorem firstClause?_resume {a : Nat} (h : p.Boundary a) :
    e.Scans (p.firstClause? a) (p'.firstClause? (e.resume a)) := by
  rw [firstClause?, firstClause?, clauseFrom?_eq_sweep, clauseFrom?_eq_sweep]
  exact e.sweep_resume 0 h

theorem clauseEnd?_next (hs : s ∈ p.walk 0) :
    e.Scans (p.clauseEnd? (p.next s)) (p'.clauseEnd? (p'.next (e.place s))) := by
  rw [clauseEnd?, clauseEnd?, clauseEndFrom?_eq_sweep, clauseEndFrom?_eq_sweep]
  exact e.sweep_next hs (e.sweep_place 0)

private theorem declares_place (raised : Exception) (hs : s ∈ p.walk 0) {k count : Nat}
    (hk : k + count ≤ p.operandCount s + 1) :
    p'.declares raised (e.place s + k) count = p.declares raised (s + k) count ∨
      p.declares raised (s + k) count = .error .missingOperand ∧ e.Spared .missingOperand := by
  induction count generalizing k with
  | zero => exact .inl rfl
  | succ count ih =>
    have hle : k ≤ p.operandCount s := by omega
    rw [declares, declares]
    cases hb : p.byte? (s + k) with
    | none =>
      rcases e.missing_add hs hle hb with hnone | hspared
      · exact .inl (by rw [hnone])
      · exact .inr ⟨rfl, hspared⟩
    | some code =>
      rw [e.byte?_add hs hle hb]
      dsimp only
      split
      next => exact .inl rfl
      next => exact ih (k := k + 1) (by omega)

private theorem clauseTakes_place (raised : Exception) (hs : s ∈ p.walk 0)
    (hop : p.opcode? s = some .clause) :
    p'.clauseTakes raised (e.place s) = p.clauseTakes raised s ∨
      p.clauseTakes raised s = .error .missingOperand ∧ e.Spared .missingOperand := by
  have hone := one_le_operandCount_of_clause hop
  rw [clauseTakes, clauseTakes]
  cases hcount : p.byte? (s + 1) with
  | none =>
    rcases e.missing_add hs hone hcount with hnone | hspared
    · exact .inl (by rw [hnone])
    · exact .inr ⟨rfl, hspared⟩
  | some count =>
    rw [e.byte?_add hs hone hcount]
    dsimp only
    split
    next => exact .inl rfl
    next =>
      have := operandCount_of_clause hop hcount
      exact e.declares_place raised hs (by omega)

/-- The search for a clause that accepts ends in `p'` where it does in `p`, or is spared its fault. -/
theorem acceptingClause_place (raised : Exception) {s : Nat} (hs : s ∈ p.walk 0)
    (hop : p.opcode? s = some .clause) :
    p'.acceptingClause raised (e.place s) = (p.acceptingClause raised s).map (·.map e.place) ∨
      ∃ cause, p.acceptingClause raised s = .error cause ∧ e.Spared cause := by
  rw [acceptingClause_eq p, acceptingClause_eq p']
  rcases e.clauseTakes_place raised hs hop with htakes | ⟨herror, hspared⟩
  · rw [htakes]
    cases p.clauseTakes raised s with
    | error cause => exact .inl rfl
    | ok taken =>
      cases taken with
      | true => exact .inl rfl
      | false =>
        dsimp only
        rcases e.clauseEnd?_next hs with hend | ⟨hnone, hspared⟩
        · rw [hend]
          cases hq : p.clauseEnd? (p.next s) with
          | none => exact .inl rfl
          | some q =>
            obtain ⟨hmem, hends⟩ := clauseEnd?_eq_some hq
            have hlt : s < q := Nat.lt_of_lt_of_le (p.lt_next s) (clauseEnd?_bounds hq).1
            have hin := (clauseEnd?_bounds hq).2
            have hwalk : q ∈ p.walk 0 :=
              mem_walk_iff.2 ⟨((mem_walk_iff.1 hs).1.next (mem_walk_iff.1 hs).2).trans
                (.of_mem_walk hmem), hin⟩
            simp only [Option.map_some, e.opcode?_place hin]
            split
            next => exact .inl rfl
            next hopen => exact acceptingClause_place raised hwalk (hends.resolve_right hopen)
        · rw [hnone]
          exact .inr ⟨_, rfl, hspared.2.2⟩
  · rw [herror]
    exact .inr ⟨_, rfl, hspared⟩
termination_by p.size - s

end Embedding
end PixelCode
