import PixelCode.Proofs.Machine.Ending
import PixelCode.Proofs.Machine.Whole

/-! Where a fault is said to be: at the last byte that the failing instruction has consumed or, if an operand of
its own is missing, at the end of the program. A division that fails in the search for a clause has consumed only
its operation byte, and is reported there even if it is an operand of the clause that is missing. -/
namespace PixelCode

/-- The last byte that the instruction at `pc` has consumed when it fails although the program holds all of it.
A clause outside every scope fails before its operands are fetched. -/
def Program.lastConsumed (p : Program) (cause : Fault.Cause) (pc : Nat) : Nat :=
  if cause = .misplacedClause then pc else p.next pc - 1

namespace Program
variable {p : Program} {cause : Fault.Cause} {pc : Nat}

private theorem le_lastConsumed (p : Program) (cause : Fault.Cause) (pc : Nat) :
    pc ≤ p.lastConsumed cause pc := by
  unfold lastConsumed
  split
  · exact Nat.le_refl pc
  · have := p.lt_next pc
    omega

private theorem lastConsumed_of_ne (h : cause ≠ .misplacedClause) :
    p.lastConsumed cause pc + 1 = p.next pc := by
  have := p.lt_next pc
  rw [lastConsumed, if_neg h]
  omega

/-- An operation without operands consumes one byte. -/
theorem lastConsumed_of_next (h : p.next pc = pc + 1) : p.lastConsumed cause pc = pc := by
  unfold lastConsumed
  split
  · rfl
  · rw [h, Nat.add_sub_cancel]

end Program

namespace Machine
variable {p : Program} {m m' : Machine} {events : List Event} {cause : Fault.Cause}

private theorem next_of_division {op : Opcode} (hop : p.opcode? m.pc = some op)
    (hdivides : op = .div ∨ op = .mod) : p.next m.pc = m.pc + 1 := by
  rcases hdivides with rfl | rfl
  · exact Program.next_of_opcode? hop nofun
  · exact Program.next_of_opcode? hop nofun

/-- An instruction that lacks no operand leaves the program counter behind the last byte it has consumed. -/
theorem Failure.pc_of_consumed (h : Failure p m m' events cause) (hcause : cause ≠ .missingOperand) :
    m'.pc = p.lastConsumed cause m.pc + 1 ∧ p.lastConsumed cause m.pc < p.size := by
  have hwhole (hmisplaced : cause ≠ .misplacedClause) (hinside : p.next m.pc ≤ p.size)
      (hpc : m'.pc = p.next m.pc) :
      m'.pc = p.lastConsumed cause m.pc + 1 ∧ p.lastConsumed cause m.pc < p.size := by
    have hlast : p.lastConsumed cause m.pc + 1 = p.next m.pc := Program.lastConsumed_of_ne hmisplaced
    exact ⟨hpc.trans hlast.symm, by omega⟩
  cases h with
  | operand => exact absurd rfl hcause
  | value stack _ _ hinside => exact hwhole nofun hinside rfl
  | load id hop hoperand | call id hop hoperand | define id hop hoperand =>
    have hnext := Program.next_of_opcode? hop nofun
    have hin := Program.lt_size_of_byte? hoperand
    exact hwhole nofun (hnext ▸ hin) hnext.symm
  | openTry hop =>
    have hnext := Program.next_of_opcode? hop nofun
    exact hwhole nofun (hnext ▸ Program.lt_size_of_opcode? hop) hnext.symm
  | misplaced hop => exact ⟨rfl, Program.lt_size_of_opcode? hop⟩
  | unended scope outer _ hinside => exact hwhole nofun hinside rfl
  | escape rest hop hdivides =>
    rw [Program.lastConsumed_of_next (next_of_division hop hdivides)]
    exact ⟨rfl, Program.lt_size_of_opcode? hop⟩

/-- For want of an operand an instruction fails that is cut off, with the program counter behind the first byte
that is missing, or a division fails whose exception comes to a clause that is cut off. -/
theorem Failure.missing_operand (h : Failure p m m' events .missingOperand) :
    p.size < p.next m.pc ∧ m'.pc = p.size + 1 ∨
      (p.opcode? m.pc = some .div ∨ p.opcode? m.pc = some .mod) ∧ p.next m.pc ≤ p.size ∧
        m'.pc = m.pc + 1 ∧
        ∃ s ∈ m.scopes, s.spent = false ∧
          p.acceptingClause .divisionByZero s.clause = .error .missingOperand := by
  generalize hcause : Fault.Cause.missingOperand = cause at h
  cases h with
  | operand hop hcut => exact .inl ⟨hcut, rfl⟩
  | escape rest hop hdivides hescapes =>
    subst hcause
    have hin : p.next m.pc ≤ p.size := next_of_division hop hdivides ▸ Program.lt_size_of_opcode? hop
    refine .inr ⟨?_, hin, rfl, hescapes.exists_broken nofun⟩
    rcases hdivides with rfl | rfl
    · exact .inl hop
    · exact .inr hop
  | _ => cases hcause

/-- Every fault of every run belongs to an instruction on the walk. It is reported at the last byte that this
instruction has consumed or, if the instruction itself is cut off, at the end of the program. Only a division is
reported at its own position when an operand is missing: that of a clause which is cut off, to which the search of
an open scope has come. -/
theorem fault_position (m₀ : Machine) (p : Program) (fuel : Nat) (out : Sink) (trace : Trace) (r : Run) (f : Fault)
    (hrun : m₀.run p fuel out trace = some r) (hfault : r.ending = .faulted f) :
    ∃ m events, Reachable p m ∧ m.dispatch p f.opcode = .fault r.machine events f.cause ∧
      m.pc ∈ p.walk 0 ∧ p.byte? m.pc = some f.opcode ∧
      (f.cause ≠ .missingOperand →
        f.pc = p.lastConsumed f.cause m.pc ∧ m.pc ≤ f.pc ∧ f.pc < p.size) ∧
      (f.cause = .missingOperand → p.size < p.next m.pc → f.pc = p.size) ∧
      (f.cause = .missingOperand → p.next m.pc ≤ p.size →
        f.pc = m.pc ∧ (p.opcode? m.pc = some .div ∨ p.opcode? m.pc = some .mod) ∧
          ∃ s ∈ m.scopes, s.spent = false ∧
            p.acceptingClause .divisionByZero s.clause = .error .missingOperand ∧
            ∃ q ∈ p.walk 0, p.opcode? q = some .clause ∧ p.size < p.next q) := by
  obtain ⟨n, before, text, m, events, hpath, hb, hlast, hpc, -⟩ := exists_failing_of_runFrom hrun hfault
  have hreachable : Reachable p m := ⟨n, before, text, hpath⟩
  have haligned := hreachable.aligned
  have hfailure := dispatch_failure hb hlast
  refine ⟨m, events, hreachable, hlast, haligned.pc.mem_walk (Program.lt_size_of_byte? hb), hb, ?_, ?_, ?_⟩
  · intro hcause
    obtain ⟨hleft, hin⟩ := hfailure.pc_of_consumed hcause
    rw [hleft, Nat.add_sub_cancel] at hpc
    rw [hpc]
    exact ⟨rfl, p.le_lastConsumed f.cause m.pc, hin⟩
  · intro hcause hcut
    rcases (hcause ▸ hfailure).missing_operand with ⟨-, hleft⟩ | ⟨-, hin, -⟩
    · rw [hpc, hleft, Nat.add_sub_cancel]
    · omega
  · intro hcause hin
    rcases (hcause ▸ hfailure).missing_operand with ⟨hcut, -⟩ | ⟨hdivides, -, hleft, s, hs, hfresh, hbroken⟩
    · omega
    · obtain ⟨hwalk, hclause⟩ := haligned.scopes s hs
      rw [hpc, hleft, Nat.add_sub_cancel]
      exact ⟨rfl, hdivides, s, hs, hfresh, hbroken, Program.exists_cut_of_acceptingClause hwalk hclause hbroken⟩

/-- A division by zero in a scope whose clause ends with the program, before its count. -/
def cutSearch : Program := .ofList [0x70, 0x01, 1, 0x01, 0, 0x13, 0x71]

private theorem cutSearch_run :
    ∃ r f, initial.run cutSearch 6 .unlimited (.start none) = some r ∧ r.ending = .faulted f ∧
      f.cause = .missingOperand ∧ f.opcode = 0x13 ∧ f.pc = 5 := by
  have hrun : (initial.run cutSearch 6 .unlimited (.start none)).any (fun r =>
      r.ending.fault?.any fun f =>
        decide (f.cause = .missingOperand ∧ f.opcode = 0x13 ∧ f.pc = 5)) = true := by
    decide +kernel
  exact exists_faulted hrun

/-- A fault for want of an operand that is not reported where the operand should be. -/
theorem fault_inside_program :
    ∃ r f, initial.run cutSearch 6 .unlimited (.start none) = some r ∧ r.ending = .faulted f ∧
      f.cause = .missingOperand ∧ f.pc < cutSearch.size := by
  obtain ⟨r, f, hrun, hending, hcause, -, hpc⟩ := cutSearch_run
  exact ⟨r, f, hrun, hending, hcause, by rw [hpc]; decide⟩

/-- It belongs to the division, whose exception has come to the clause. -/
theorem fault_position_cutSearch :
    ∃ r f, initial.run cutSearch 6 .unlimited (.start none) = some r ∧ r.ending = .faulted f ∧
      ∃ m, Reachable cutSearch m ∧ m.pc = f.pc ∧ cutSearch.byte? m.pc = some 0x13 ∧
        ∃ q ∈ cutSearch.walk 0, cutSearch.opcode? q = some .clause ∧ cutSearch.size < cutSearch.next q := by
  obtain ⟨r, f, hrun, hending, hcause, hop, hpc⟩ := cutSearch_run
  obtain ⟨m, events, hreachable, -, -, hb, -, hend, hsearch⟩ :=
    fault_position initial cutSearch 6 .unlimited (.start none) r f hrun hending
  have hin : cutSearch.next m.pc ≤ cutSearch.size := by
    refine Nat.not_lt.1 fun hcut => ?_
    have hsize := hend hcause hcut
    rw [hpc] at hsize
    exact absurd hsize (by decide)
  obtain ⟨hm, -, s, -, -, -, hcut⟩ := hsearch hcause hin
  exact ⟨r, f, hrun, hending, m, hreachable, hm.symm, hop ▸ hb, hcut⟩

end Machine
end PixelCode
