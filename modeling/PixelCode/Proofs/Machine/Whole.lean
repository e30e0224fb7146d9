import PixelCode.Proofs.Machine.Alignment
import PixelCode.Proofs.Machine.Conclusion
import PixelCode.Proofs.Machine.Failure

/-! Programs that consist of whole instructions never lack an operand and skip no byte. -/
namespace PixelCode

namespace Program

/-- Every byte that the linear walk comes to is an operation, and has its operands. -/
structure Whole (p : Program) : Prop where
  opcode : ∀ q ∈ p.walk 0, ∃ op, p.opcode? q = some op
  fits : ∀ q ∈ p.walk 0, p.next q ≤ p.size

variable {p : Program} {e : Exception} {pc : Nat}

/-- A search for a clause that lacks an operand has come to a clause that is cut off. -/
theorem exists_cut_of_acceptingClause (hpc : pc ∈ p.walk 0) (hclause : p.opcode? pc = some .clause)
    (h : p.acceptingClause e pc = .error .missingOperand) :
    ∃ q ∈ p.walk 0, p.opcode? q = some .clause ∧ p.size < p.next q := by
  obtain ⟨i, q, hq, -, -, hincomplete⟩ := acceptingClause_eq_missingOperand_iff.1 h
  obtain ⟨hmem, hop⟩ := mem_walk_of_clauseAt? hclause hq
  refine ⟨q, (Boundary.of_mem_walk hpc).scan hmem, hop, Nat.not_le.1 fun hfits => ?_⟩
  exact hincomplete (completeAt_of_next_le hop hfits)

end Program

namespace Machine
variable {p : Program} {m m' : Machine}

/-- An exception that gets lost for want of an operand was refused or passed on by the scopes inside one whose
clauses could not be read. -/
theorem Escapes.exists_broken {e : Exception} {cause : Fault.Cause} {rest scopes : List Scope}
    (h : Escapes p e cause rest scopes) (hcause : cause ≠ .unhandled e) :
    ∃ s ∈ scopes, s.spent = false ∧ p.acceptingClause e s.clause = .error cause := by
  induction h with
  | unhandled => exact absurd rfl hcause
  | @broken cause s outer fresh failed => exact ⟨s, List.mem_cons_self, fresh, failed⟩
  | further _ _ ih =>
    obtain ⟨s, hs, hbroken⟩ := ih hcause
    exact ⟨s, List.mem_cons_of_mem _ hs, hbroken⟩

/-- No instruction of such a program fails for want of an operand. -/
theorem Failure.ne_missingOperand {events : List Event} {cause : Fault.Cause}
    (h : Failure p m m' events cause) (hp : p.Whole) (hm : Aligned p m) :
    cause ≠ .missingOperand := by
  cases h with
  | operand hop hcut =>
    have hfits := hp.fits m.pc (hm.pc.mem_walk (Program.lt_size_of_opcode? hop))
    omega
  | escape rest hop hdivides hescapes =>
    rintro rfl
    obtain ⟨s, hs, -, hbroken⟩ := hescapes.exists_broken (by simp)
    obtain ⟨hwalk, hclause⟩ := hm.scopes s hs
    obtain ⟨q, hq, -, hcut⟩ := Program.exists_cut_of_acceptingClause hwalk hclause hbroken
    exact absurd (hp.fits q hq) (Nat.not_le.2 hcut)
  | _ => simp

/-- Every state of every run is about to dispatch an operation, which has its operands. -/
theorem Reachable.dispatch_of_whole (h : Reachable p m) (hp : p.Whole) {b : UInt8}
    (hb : p.byte? m.pc = some b) :
    (∃ op, Opcode.ofByte? b = some op) ∧
      ∀ m' events, m.dispatch p b ≠ .fault m' events .missingOperand := by
  have hm := h.aligned
  constructor
  · rw [← Program.opcode?_of_byte? hb]
    exact hp.opcode m.pc (hm.pc.mem_walk (Program.lt_size_of_byte? hb))
  · intro m' events hfault
    exact (dispatch_failure hb hfault).ne_missingOperand hp hm rfl

/-- The fault of a run, whatever its sink takes, is no missing operand. -/
theorem run_ne_missingOperand (hp : p.Whole) {fuel : Nat} {out : Sink} {trace : Trace} {r : Run}
    (hrun : m.run p fuel out trace = some r) {f : Fault} (hfault : r.ending = .faulted f) :
    f.cause ≠ .missingOperand := by
  obtain ⟨n, events, text, m₁, last, hpath, hb, hlast, -, -⟩ := exists_failing_of_runFrom hrun hfault
  have hreachable : Reachable p m₁ := ⟨n, events, text, hpath⟩
  exact (dispatch_failure hb hlast).ne_missingOperand hp hreachable.aligned

end Machine
end PixelCode
