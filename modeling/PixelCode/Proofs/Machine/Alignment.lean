import PixelCode.Proofs.Machine.Path
import PixelCode.Proofs.Program.Clauses

/-! Control stays between instructions: the program counter, the function table, the return
addresses and the open scopes only ever hold positions of the linear walk. -/
namespace PixelCode

namespace Program

/-- A position between two instructions; the end of a program counts if no instruction is cut off
by it. -/
structure Boundary (p : Program) (q : Nat) : Prop where
  steps : p.StepsTo 0 q
  le_size : q ≤ p.size

variable {p : Program} {q : Nat}

theorem Boundary.start (p : Program) : p.Boundary 0 := ⟨.refl, Nat.zero_le _⟩

theorem Boundary.of_mem_walk (h : q ∈ p.walk 0) : p.Boundary q :=
  have ⟨hsteps, hlt⟩ := mem_walk_iff.1 h
  ⟨hsteps, Nat.le_of_lt hlt⟩

theorem Boundary.mem_walk (h : p.Boundary q) (hin : q < p.size) : q ∈ p.walk 0 :=
  mem_walk_iff.2 ⟨h.steps, hin⟩

/-- The position after a whole instruction. -/
theorem Boundary.next (h : p.Boundary q) (hin : q < p.size) (hle : p.next q ≤ p.size) :
    p.Boundary (p.next q) :=
  ⟨.next h.steps hin, hle⟩

/-- A scan from a boundary stays on the walk. -/
theorem Boundary.scan (h : p.Boundary q) {target : Nat} (ht : target ∈ p.walk q) :
    target ∈ p.walk 0 :=
  have ⟨hsteps, hlt⟩ := mem_walk_iff.1 ht
  mem_walk_iff.2 ⟨h.steps.trans hsteps, hlt⟩

theorem Boundary.past {op : Opcode} (h : p.Boundary q) (hop : p.opcode? q = some op)
    (hclause : op ≠ .clause) (hin : q + op.operands < p.size) :
    p.Boundary (q + 1 + op.operands) := by
  have hnext := next_of_opcode? hop hclause
  rw [← hnext]
  exact h.next (lt_size_of_opcode? hop) (by omega)

end Program

def Scope.Aligned (p : Program) (s : Scope) : Prop :=
  s.clause ∈ p.walk 0 ∧ p.opcode? s.clause = some .clause

namespace Machine

variable {p : Program} {m m' : Machine}

/-- Every position that the state holds lies between two instructions. -/
structure Aligned (p : Program) (m : Machine) : Prop where
  pc : p.Boundary m.pc
  functions : ∀ id entry, m.functions.get? id = some entry → p.Boundary entry
  calls : ∀ address ∈ m.calls.toList, p.Boundary address
  scopes : ∀ s ∈ m.scopes, s.Aligned p

theorem Aligned.initial (p : Program) : Aligned p initial where
  pc := .start p
  functions id entry h := by simp [Machine.initial] at h
  calls address h := by simp [Machine.initial] at h
  scopes s h := by simp [Machine.initial] at h

/-- Every move keeps the positions of the state between instructions. -/
theorem Aligned.move (h : Aligned p m) (hmove : Move p m m') : Aligned p m' := by
  cases hmove with
  | plain stack inside =>
    have hin : m.pc < p.size := Nat.lt_of_lt_of_le (p.lt_next m.pc) inside
    exact { h with pc := h.pc.next hin inside }
  | store id v op operand =>
    exact { h with pc := h.pc.past op (by decide) (Program.lt_size_of_byte? operand) }
  | define id ret op operand found =>
    have hentry := h.pc.past op (by decide) (Program.lt_size_of_byte? operand)
    obtain ⟨hret, hopret⟩ := Program.firstReturn?_eq_some found
    have hret := Program.Boundary.of_mem_walk (hentry.scan hret)
    refine { h with pc := hret.past hopret (by decide) (Program.lt_size_of_opcode? hopret), functions := ?_ }
    intro id' entry hget
    rw [Slots.get?_set] at hget
    split at hget
    · cases hget
      exact hentry
    · exact h.functions id' entry hget
  | call id entry op operand found =>
    have haddress : p.Boundary (m.pc + 2) :=
      h.pc.past op (by decide) (Program.lt_size_of_byte? operand)
    refine { h with pc := h.functions id entry found, calls := ?_ }
    rw [Array.toList_push]
    exact List.forall_mem_append.2 ⟨h.calls, by simpa using haddress⟩
  | ret address op back =>
    have hmem : address ∈ m.calls.toList := Array.mem_toList_iff.2 (Array.mem_of_back? back)
    refine { h with pc := h.calls address hmem, calls := ?_ }
    rw [Array.toList_pop]
    exact fun a ha => h.calls a ((List.dropLast_subset _) ha)
  | openTry clause op found =>
    have hbody := h.pc.past op (by decide) (Program.lt_size_of_opcode? op)
    obtain ⟨hclause, hopclause⟩ := Program.firstClause?_eq_some found
    exact { h with
      pc := hbody
      scopes := List.forall_mem_cons.2 ⟨⟨hbody.scan hclause, hopclause⟩, h.scopes⟩ }
  | enter scope outer accepts op inside open_ =>
    obtain ⟨hscope, houter⟩ := List.forall_mem_cons.1 (open_ ▸ h.scopes)
    exact { h with
      pc := h.pc.next (Program.lt_size_of_opcode? op) inside
      scopes := List.forall_mem_cons.2 ⟨hscope, houter⟩ }
  | pass scope outer accepts q op inside open_ settled found =>
    obtain ⟨hscope, houter⟩ := List.forall_mem_cons.1 (open_ ▸ h.scopes)
    have hbody := h.pc.next (Program.lt_size_of_opcode? op) inside
    exact { h with
      pc := .of_mem_walk (hbody.scan (Program.clauseEnd?_eq_some found).1)
      scopes := List.forall_mem_cons.2 ⟨hscope, houter⟩ }
  | endTry op =>
    exact { h with
      pc := h.pc.past op (by decide) (Program.lt_size_of_opcode? op)
      scopes := fun s hs => h.scopes s (List.mem_of_mem_tail hs) }
  | raise scope outer target op taken =>
    obtain ⟨hmem, hsub⟩ := taken.mem
    have hscope := h.scopes scope hmem
    obtain ⟨htarget, -⟩ := Program.acceptingClause_eq_some hscope.2 taken.found.2
    have htarget := (Program.Boundary.of_mem_walk hscope.1).scan htarget
    refine { h with
      pc := .of_mem_walk htarget
      calls := ?_
      scopes := List.forall_mem_cons.2 ⟨hscope, fun s hs => h.scopes s (hsub s hs)⟩ }
    rw [Array.toList_shrink]
    exact fun a ha => h.calls a (List.mem_of_mem_take ha)

theorem Reachable.aligned (h : Reachable p m) : Aligned p m :=
  h.invariant (.initial p) fun hmove hm => hm.move hmove

end Machine
end PixelCode
