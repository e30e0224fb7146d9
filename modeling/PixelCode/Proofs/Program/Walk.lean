import PixelCode.Program.Scope

/-! Positions on the linear walk, and where the forward scans land on it. -/
namespace PixelCode

theorem Opcode.byte_of_ofByte? {b : UInt8} {op : Opcode} (h : ofByte? b = some op) :
    op.byte = b := by
  unfold ofByte? at h
  split at h <;> cases h <;> rfl

namespace Program

/-- Stepping from `start` reaches a position; the first one outside the program counts too. -/
inductive StepsTo (p : Program) (start : Nat) : Nat → Prop where
  | refl : StepsTo p start start
  | next {pc : Nat} : StepsTo p start pc → pc < p.size → StepsTo p start (p.next pc)

variable {p : Program}

namespace StepsTo

theorem trans {a b c : Nat} (hab : p.StepsTo a b) (hbc : p.StepsTo b c) : p.StepsTo a c := by
  induction hbc with
  | refl => exact hab
  | next _ hin ih => exact .next ih hin

theorem head {a c : Nat} (hin : a < p.size) (h : p.StepsTo (p.next a) c) : p.StepsTo a c :=
  (StepsTo.next .refl hin).trans h

theorem le {a b : Nat} (h : p.StepsTo a b) : a ≤ b := by
  induction h with
  | refl => exact Nat.le_refl a
  | @next pc _ _ ih =>
    have := p.lt_next pc
    omega

/-- Stepping has one way to go: the start itself or on from the next position. -/
theorem eq_or_next {a b : Nat} (h : p.StepsTo a b) :
    a = b ∨ a < p.size ∧ p.StepsTo (p.next a) b := by
  induction h with
  | refl => exact .inl rfl
  | next _ hin ih =>
    rcases ih with rfl | ⟨hstart, hrest⟩
    · exact .inr ⟨hin, .refl⟩
    · exact .inr ⟨hstart, .next hrest hin⟩

/-- Of two positions that stepping reaches, it reaches the further one from the nearer one. -/
theorem of_le {a b c : Nat} (hb : p.StepsTo a b) (hc : p.StepsTo a c) (hle : b ≤ c) :
    p.StepsTo b c := by
  induction hb with
  | refl => exact hc
  | @next pc _ hin ih =>
    have hlt := p.lt_next pc
    rcases (ih (by omega)).eq_or_next with heq | ⟨-, hrest⟩
    · omega
    · exact hrest

theorem next_le {a b c : Nat} (hb : p.StepsTo a b) (hc : p.StepsTo a c) (hlt : b < c) :
    p.next b ≤ c := by
  rcases (hb.of_le hc (Nat.le_of_lt hlt)).eq_or_next with heq | ⟨-, hrest⟩
  · omega
  · exact hrest.le

end StepsTo

/-- The walk lists exactly the positions inside the program that stepping reaches. -/
theorem mem_walk_iff {start q : Nat} : q ∈ p.walk start ↔ p.StepsTo start q ∧ q < p.size := by
  constructor
  · intro hq
    refine ⟨?_, (p.mem_walk_bounds start q hq).2⟩
    fun_induction walk p start with
    | case1 pc hin ih =>
      rcases List.mem_cons.1 hq with rfl | hq
      · exact .refl
      · exact .head hin (ih hq)
    | case2 pc hout => simp at hq
  · rintro ⟨hsteps, hq⟩
    fun_induction walk p start with
    | case1 pc hin ih =>
      rcases hsteps.eq_or_next with rfl | ⟨_, hrest⟩
      · exact List.mem_cons_self
      · exact List.mem_cons_of_mem _ (ih hrest)
    | case2 pc hout =>
      have := hsteps.le
      omega

theorem StepsTo.of_mem_walk {start q : Nat} (h : q ∈ p.walk start) : p.StepsTo start q :=
  (mem_walk_iff.1 h).1

theorem byte?_eq_some_of_lt {pc : Nat} (h : pc < p.size) : ∃ b, p.byte? pc = some b :=
  ⟨p.bytes[pc], Array.getElem?_eq_getElem h⟩

theorem lt_size_of_opcode? {pc : Nat} {op : Opcode} (h : p.opcode? pc = some op) :
    pc < p.size := by
  obtain ⟨b, hb, -⟩ := Option.bind_eq_some_iff.1 h
  exact lt_size_of_byte? hb

theorem byte?_of_opcode? {pc : Nat} {op : Opcode} (h : p.opcode? pc = some op) :
    p.byte? pc = some op.byte := by
  obtain ⟨b, hb, hop⟩ := Option.bind_eq_some_iff.1 h
  rw [hb, Opcode.byte_of_ofByte? hop]

theorem opcode?_of_byte? {pc : Nat} {b : UInt8} (h : p.byte? pc = some b) :
    p.opcode? pc = Opcode.ofByte? b := by
  rw [opcode?, h]; rfl

/-- An operation other than a clause takes as many bytes as the table of operands says. -/
theorem next_of_opcode? {pc : Nat} {op : Opcode} (h : p.opcode? pc = some op)
    (hop : op ≠ .clause) : p.next pc = pc + 1 + op.operands := by
  rw [next, operandCount, h]
  cases op <;> first | rfl | exact absurd rfl hop

theorem next_of_clause {pc : Nat} {count : UInt8} (h : p.opcode? pc = some .clause)
    (hcount : p.byte? (pc + 1) = some count) : p.next pc = pc + 2 + count.toNat := by
  rw [next, operandCount, h, hcount]
  simp only [Option.getD_some]
  omega

theorem next_of_unknown {pc : Nat} (h : p.opcode? pc = none) : p.next pc = pc + 1 := by
  rw [next, operandCount, h]; rfl

theorem operandCount_of_opcode? {pc : Nat} {op : Opcode} (h : p.opcode? pc = some op)
    (hop : op ≠ .clause) : p.operandCount pc = op.operands := by
  have := next_of_opcode? h hop
  unfold next at this
  omega

theorem operandCount_of_clause {pc : Nat} {count : UInt8} (h : p.opcode? pc = some .clause)
    (hcount : p.byte? (pc + 1) = some count) : p.operandCount pc = 1 + count.toNat := by
  have := next_of_clause h hcount
  unfold next at this
  omega

theorem one_le_operandCount_of_clause {pc : Nat} (h : p.opcode? pc = some .clause) :
    1 ≤ p.operandCount pc := by
  rw [operandCount, h]
  exact Nat.le_add_right 1 _

theorem firstReturn?_eq_some {start q : Nat} (h : p.firstReturn? start = some q) :
    q ∈ p.walk start ∧ p.opcode? q = some .ret := by
  rw [firstReturn?_eq_find?] at h
  exact ⟨List.mem_of_find?_eq_some h, by simpa using List.find?_some h⟩

private theorem clauseFrom?_eq_some {depth start q : Nat} (h : p.clauseFrom? depth start = some q) :
    q ∈ p.walk start ∧ p.opcode? q = some .clause := by
  fun_induction clauseFrom? p depth start <;> rw [walk] <;> simp_all

theorem firstClause?_eq_some {start q : Nat} (h : p.firstClause? start = some q) :
    q ∈ p.walk start ∧ p.opcode? q = some .clause :=
  clauseFrom?_eq_some h

private theorem clauseEndFrom?_opcode {depth start q : Nat}
    (h : p.clauseEndFrom? depth start = some q) :
    p.opcode? q = some .clause ∨ p.opcode? q = some .endTry := by
  fun_induction clauseEndFrom? p depth start <;> simp_all

theorem clauseEnd?_eq_some {start q : Nat} (h : p.clauseEnd? start = some q) :
    q ∈ p.walk start ∧ (p.opcode? q = some .clause ∨ p.opcode? q = some .endTry) :=
  ⟨mem_walk_of_clauseEndFrom? h, clauseEndFrom?_opcode h⟩

theorem clauseEnd?_of_end {pc : Nat}
    (hop : p.opcode? pc = some .clause ∨ p.opcode? pc = some .endTry) :
    p.clauseEnd? pc = some pc := by
  rw [clauseEnd?, clauseEndFrom?.eq_def p 0 pc]
  rcases hop with hop | hop
  · rw [if_pos (lt_size_of_opcode? hop), hop]
    rfl
  · rw [if_pos (lt_size_of_opcode? hop), hop]

/-- The first clause of a scope is what ends its block, unless the scope has none. -/
theorem clauseFrom?_eq (p : Program) (depth pc : Nat) :
    p.clauseFrom? depth pc =
      (p.clauseEndFrom? depth pc).filter fun q => p.opcode? q = some .clause := by
  fun_induction clauseFrom? p depth pc <;> rw [clauseEndFrom?.eq_def] <;>
    simp_all [Option.filter, Nat.not_lt_of_le]

end Program
end PixelCode
