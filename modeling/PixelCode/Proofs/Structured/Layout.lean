import PixelCode.Proofs.Program.Slice
import PixelCode.Proofs.Structured.Syntax

/-! Structured programs inside a program: where the parts of a statement are. -/
namespace PixelCode

namespace Structured
open Program

variable {p : Program}

theorem Types.holdsAt {types : Types} {pc : Nat} (h : p.HoldsAt pc types.bytes) :
    p.opcode? pc = some .clause ∧ p.byte? (pc + 1) = some (UInt8.ofNat types.codes.length) ∧
      p.HoldsAt (pc + 2) types.codes :=
  ⟨opcode?_of_holdsAt h, h.2.1, h.2.2⟩

theorem Types.count_toNat (types : Types) :
    (UInt8.ofNat types.codes.length).toNat = types.codes.length := by
  have := types.length_le
  simp only [UInt8.toNat_ofNat']
  omega

theorem Types.next {types : Types} {pc : Nat} (h : p.HoldsAt pc types.bytes) :
    p.next pc = pc + types.bytes.length := by
  obtain ⟨hop, hcount, -⟩ := Types.holdsAt h
  rw [next_of_clause hop hcount, types.count_toNat, Types.bytes]
  simp only [List.length_cons]
  omega

/-- An atom is one instruction that opens or closes nothing. -/
theorem Atom.located {a : Atom} {pc : Nat} (h : p.HoldsAt pc a.bytes) :
    pc < p.size ∧ p.next pc = pc + a.bytes.length ∧
      ∀ op, p.opcode? pc = some op →
        op ≠ .openTry ∧ op ≠ .clause ∧ op ≠ .endTry ∧ op ≠ .ret := by
  cases a with
  | unknown b hb =>
    have hop : p.opcode? pc = none := (opcode?_of_byte? h.1).trans hb
    refine ⟨lt_size_of_byte? h.1, next_of_unknown hop, fun op hsome => ?_⟩
    rw [hop] at hsome
    cases hsome
  | _ =>
    have hop := opcode?_of_holdsAt h
    refine ⟨lt_size_of_opcode? hop, next_of_opcode? hop (by decide), fun op hsome => ?_⟩
    rw [hop] at hsome
    cases hsome
    decide

section Parts
variable {defs : Bool} {pc : Nat}

theorem Block.located_cons {first : Stmt defs} {rest : Block defs}
    (h : p.HoldsAt pc (Block.cons first rest).flatten) :
    p.HoldsAt pc first.flatten ∧ p.HoldsAt (pc + first.flatten.length) rest.flatten :=
  holdsAt_append.1 h

theorem Clauses.located_cons {types : Types} {handler : Block defs} {rest : Clauses defs}
    (h : p.HoldsAt pc (Clauses.cons types handler rest).flatten) :
    p.HoldsAt pc types.bytes ∧ p.HoldsAt (pc + types.bytes.length) handler.flatten ∧
      p.HoldsAt (pc + types.bytes.length + handler.flatten.length) rest.flatten := by
  obtain ⟨h, hrest⟩ := holdsAt_append.1 h
  obtain ⟨htypes, hhandler⟩ := holdsAt_append.1 h
  rw [List.length_append, ← Nat.add_assoc] at hrest
  exact ⟨htypes, hhandler, hrest⟩

theorem Clauses.located_scope {types : Types} {handler : Block defs} {rest : Clauses defs}
    (h : p.HoldsAt pc ((Clauses.cons types handler rest).flatten ++ [Opcode.endTry.byte])) :
    p.HoldsAt pc types.bytes ∧ p.HoldsAt (pc + types.bytes.length) handler.flatten ∧
      p.HoldsAt (pc + types.bytes.length + handler.flatten.length)
        (rest.flatten ++ [Opcode.endTry.byte]) := by
  obtain ⟨h, hend⟩ := holdsAt_append.1 h
  obtain ⟨htypes, hhandler, hrest⟩ := Clauses.located_cons h
  refine ⟨htypes, hhandler, holdsAt_append.2 ⟨hrest, ?_⟩⟩
  simpa only [Clauses.flatten, List.length_append, ← Nat.add_assoc] using hend

theorem Stmt.located_attempt {body handler : Block defs} {types : Types} {others : Clauses defs}
    (h : p.HoldsAt pc (Stmt.attempt body types handler others).flatten) :
    p.opcode? pc = some .openTry ∧ p.HoldsAt (pc + 1) body.flatten ∧
      p.HoldsAt (pc + 1 + body.flatten.length) ((Clauses.cons types handler others).flatten ++
        [Opcode.endTry.byte]) := by
  refine ⟨opcode?_of_holdsAt h, holdsAt_append.1 ?_⟩
  simpa only [Clauses.flatten, List.append_assoc] using h.2

theorem Stmt.located_define {id : UInt8} {body : Block false}
    (h : p.HoldsAt pc (Stmt.define id body).flatten) :
    p.opcode? pc = some .func ∧ p.byte? (pc + 1) = some id ∧
      p.HoldsAt (pc + 2) (body.flatten ++ [Opcode.ret.byte]) :=
  ⟨opcode?_of_holdsAt h, h.2.1, h.2.2⟩

theorem Block.end_cons (pc : Nat) (first : Stmt defs) (rest : Block defs) :
    pc + (Block.cons first rest).flatten.length =
      pc + first.flatten.length + rest.flatten.length := by
  rw [Block.flatten, List.length_append, Nat.add_assoc]

theorem Stmt.end_attempt (pc : Nat) (body : Block defs) (types : Types) (handler : Block defs)
    (others : Clauses defs) :
    pc + (Stmt.attempt body types handler others).flatten.length =
      pc + 1 + body.flatten.length + (Clauses.cons types handler others).flatten.length + 1 := by
  simp only [Stmt.flatten, Clauses.flatten, List.length_cons, List.length_append, List.length_nil]
  omega

end Parts

end Structured
end PixelCode
