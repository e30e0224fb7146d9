import PixelCode.Proofs.Assembly.Line
import PixelCode.Proofs.Program.Slice
import PixelCode.Proofs.Program.Walk

/-! The statements of a program hold all its bytes in order, so its text assembles to the program. -/
namespace PixelCode

namespace Assembly
open Program

variable {p : Program} {pc : Nat} {b : UInt8}

/-- A whole instruction becomes a complete statement with the same bytes. -/
theorem statementAt_spec (hb : p.byte? pc = some b) (hnext : p.next pc ≤ p.size) :
    (statementAt p pc b).Complete ∧ (statementAt p pc b).encode = p.slice pc (p.next pc) := by
  have hop := opcode?_of_byte? hb
  have hlength : (p.slice (pc + 1) (p.next pc)).length = p.next pc - (pc + 1) := length_slice hnext
  rw [slice_cons hb (p.lt_next pc), statementAt, ← slice]
  split
  next hclause =>
    rw [hclause] at hop
    have hpc : pc + 1 < p.size := by
      have : pc + 1 < p.next pc := by simp only [next, operandCount, hop]; omega
      omega
    obtain ⟨count, hcount⟩ := byte?_eq_some_of_lt hpc
    have hwidth := next_of_clause hop hcount
    have hslice : p.slice (pc + 1) (p.next pc) = count :: p.slice (pc + 2) (p.next pc) :=
      slice_cons hcount (by omega)
    have htypes : (p.slice (pc + 2) (p.next pc)).length = count.toNat := by
      rw [length_slice hnext]
      omega
    rw [hslice, List.tail_cons]
    refine ⟨?_, ?_⟩
    · change _ ≤ 255
      have := count.toNat_lt
      omega
    · rw [Statement.encode, htypes, UInt8.ofNat_toNat, Opcode.byte_of_ofByte? hclause]
  next op hclause hbyte =>
    rw [hbyte] at hop
    have hwidth := next_of_opcode? hop hclause
    refine ⟨?_, ?_⟩
    · cases op <;> first | exact hlength.trans (by omega) | exact absurd rfl hclause
    · cases op <;> first
        | exact congrArg (· :: _) (Opcode.byte_of_ofByte? hbyte)
        | exact absurd rfl hclause
  next hbyte =>
    rw [hbyte] at hop
    have hwidth := next_of_unknown hop
    have hempty : p.slice (pc + 1) (p.next pc) = [] := by
      apply List.eq_nil_of_length_eq_zero
      omega
    rw [hempty]
    exact ⟨trivial, rfl⟩

theorem statementsFrom_of_complete (hb : p.byte? pc = some b) (hnext : p.next pc ≤ p.size) :
    statementsFrom p pc = statementAt p pc b :: statementsFrom p (p.next pc) := by
  rw [statementsFrom, hb]
  simp only [if_pos hnext]

theorem statementsFrom_of_truncated (hb : p.byte? pc = some b) (hnext : p.size < p.next pc) :
    statementsFrom p pc = (p.toList.drop pc).map .raw := by
  rw [statementsFrom, hb]
  simp only [if_neg (Nat.not_le.2 hnext)]
  rw [← slice, slice_size]

/-- The statements from a position on are complete and hold the bytes from there on. -/
theorem statementsFrom_spec (p : Program) (pc : Nat) :
    (∀ s ∈ statementsFrom p pc, s.Complete) ∧
      (statementsFrom p pc).flatMap Statement.encode = p.toList.drop pc := by
  fun_induction statementsFrom p pc with
  | case1 pc hb =>
    have hout : p.toList.length ≤ pc := Array.getElem?_eq_none_iff.1 hb
    simp [List.drop_eq_nil_of_le hout]
  | case2 pc b hb hnext _ ih =>
    obtain ⟨hcomplete, hencode⟩ := statementAt_spec hb hnext
    refine ⟨List.forall_mem_cons.2 ⟨hcomplete, ih.1⟩, ?_⟩
    rw [List.flatMap_cons, hencode, ih.2, ← drop_eq_slice_append (Nat.le_of_lt (p.lt_next pc))]
  | case3 pc b hb hnext =>
    rw [← slice, slice_size]
    refine ⟨fun s hs => ?_, ?_⟩
    · obtain ⟨b, -, rfl⟩ := List.mem_map.1 hs
      trivial
    · rw [List.flatMap_map]
      exact List.flatMap_singleton' _

/-- The text of every program assembles, to the program itself: unknown bytes, operands that look
like operations and an instruction that the end of the program cuts off included. -/
theorem assemble_disassemble (p : Program) : assemble (disassemble p) = .ok p := by
  obtain ⟨hcomplete, hbytes⟩ := statementsFrom_spec p 0
  have hlisting : assemble (disassemble p) = _ := assemble_listingOf hcomplete
  rw [hlisting, hbytes]
  rfl

end Assembly
end PixelCode
