import PixelCode.Proofs.Program.Walk

/-! The search for the clause that takes an exception. The clauses of a scope form a chain, and the
search follows it past complete clauses that declare other types, up to the first position where
something else is the case. -/
namespace PixelCode.Program

/-- Whether the clause at a position takes an exception, as far as its bytes are present. -/
def clauseTakes (p : Program) (raised : Exception) (pc : Nat) : Except Fault.Cause Bool :=
  match p.byte? (pc + 1) with
  | none => .error .missingOperand
  | some count => if count = 0 then .ok true else p.declares raised (pc + 2) count.toNat

def nextClause? (p : Program) (pc : Nat) : Option Nat :=
  (p.clauseEnd? (p.next pc)).filter fun q => p.opcode? q = some .clause

/-- The chain of clauses, by number: the start, whatever stands there, and then clause after clause. -/
def clauseAt? (p : Program) (start : Nat) : Nat → Option Nat
  | 0 => some start
  | i + 1 => (p.clauseAt? start i).bind p.nextClause?

/-- The clause at a position declares no types, or the type of an exception is among those of its type
bytes that are present. -/
def AcceptsAt (p : Program) (e : Exception) (pc : Nat) : Prop :=
  ∃ count ∈ p.byte? (pc + 1), count = 0 ∨ ∃ k < count.toNat, p.byte? (pc + 2 + k) = some e.code

/-- The count byte of the clause at a position is present, and all its type bytes are. -/
def CompleteAt (p : Program) (pc : Nat) : Prop :=
  ∃ count ∈ p.byte? (pc + 1), ∀ k < count.toNat, (p.byte? (pc + 2 + k)).isSome

/-- The clause at a position has a complete list of types, not an empty one, and the type of an
exception is not on it. -/
def RefusesAt (p : Program) (e : Exception) (pc : Nat) : Prop :=
  p.CompleteAt pc ∧ ¬ p.AcceptsAt e pc

instance (p : Program) (e : Exception) (pc : Nat) : Decidable (p.AcceptsAt e pc) :=
  inferInstanceAs (Decidable (∃ count ∈ p.byte? (pc + 1), _))

instance (p : Program) (pc : Nat) : Decidable (p.CompleteAt pc) :=
  inferInstanceAs (Decidable (∃ count ∈ p.byte? (pc + 1), _))

/-- The search passes the first `i` clauses of the chain and so comes to the one at `pc`. -/
structure ComesTo (p : Program) (e : Exception) (start i pc : Nat) : Prop where
  here : p.clauseAt? start i = some pc
  before : ∀ j < i, ∀ c ∈ p.clauseAt? start j, p.RefusesAt e c

/-- What the clause at a position makes the search answer, if it does not pass on to the next one. -/
inductive SettlesAt (p : Program) (e : Exception) (pc : Nat) :
    Except Fault.Cause (Option Nat) → Prop where
  | accepted (accepts : p.AcceptsAt e pc) : SettlesAt p e pc (.ok (some pc))
  | cut (refused : ¬ p.AcceptsAt e pc) (incomplete : ¬ p.CompleteAt pc) :
      SettlesAt p e pc (.error .missingOperand)
  | closed {q : Nat} (refuses : p.RefusesAt e pc) (next : p.clauseEnd? (p.next pc) = some q)
      (ends : p.opcode? q = some .endTry) : SettlesAt p e pc (.ok none)
  | unended (refuses : p.RefusesAt e pc) (next : p.clauseEnd? (p.next pc) = none) :
      SettlesAt p e pc (.error .unendedClause)

variable {p : Program} {e : Exception} {start i pc q : Nat}

section Types

private theorem byte?_add_eq_none {k : Nat} (h : p.byte? pc = none) : p.byte? (pc + k) = none := by
  have hout : p.size ≤ pc := Array.getElem?_eq_none_iff.1 h
  exact Array.getElem?_eq_none (Nat.le_trans hout (Nat.le_add_right pc k))

/-- A match among the type bytes counts even if the list is cut off behind it. -/
theorem declares_eq_ite (p : Program) (e : Exception) (pc count : Nat) :
    p.declares e pc count =
      if ∃ k < count, p.byte? (pc + k) = some e.code then .ok true
      else if ∀ k < count, (p.byte? (pc + k)).isSome then .ok false
      else .error .missingOperand := by
  induction count generalizing pc with
  | zero => simp [declares]
  | succ count ih =>
    rw [declares]
    cases hb : p.byte? pc with
    | none =>
      have hnone (k : Nat) : p.byte? (pc + k) = none := byte?_add_eq_none hb
      rw [if_neg (by simp [hnone]), if_neg fun h => ?_]
      simpa [hb] using h 0 (Nat.succ_pos count)
    | some code =>
      have hshift (k : Nat) : pc + 1 + k = pc + (k + 1) := by omega
      simp only [ih, Nat.exists_lt_succ_left, Nat.forall_lt_succ_left, Nat.add_zero, hb, hshift]
      by_cases hcode : code = e.code <;> simp [hcode]

private theorem clauseTakes_eq (p : Program) (e : Exception) (pc : Nat) :
    p.clauseTakes e pc =
      if p.AcceptsAt e pc then .ok true
      else if p.CompleteAt pc then .ok false
      else .error .missingOperand := by
  rw [clauseTakes]
  cases hcount : p.byte? (pc + 1) with
  | none => simp [AcceptsAt, CompleteAt, hcount]
  | some count =>
    simp only [declares_eq_ite]
    by_cases hzero : count = 0 <;> simp [AcceptsAt, CompleteAt, hcount, hzero]

theorem completeAt_of_next_le (hclause : p.opcode? pc = some .clause) (hfits : p.next pc ≤ p.size) :
    p.CompleteAt pc := by
  have hone := one_le_operandCount_of_clause hclause
  have hin : pc + 1 < p.size := by
    unfold next at hfits
    omega
  obtain ⟨count, hcount⟩ := byte?_eq_some_of_lt hin
  rw [next_of_clause hclause hcount] at hfits
  refine ⟨count, hcount, fun k hk => ?_⟩
  obtain ⟨code, hcode⟩ := byte?_eq_some_of_lt (show pc + 2 + k < p.size by omega)
  rw [hcode]
  rfl

end Types

section Chain

private theorem nextClause?_eq_some_iff :
    p.nextClause? pc = some q ↔ p.clauseEnd? (p.next pc) = some q ∧ p.opcode? q = some .clause := by
  rw [nextClause?, Option.filter_eq_some_iff, decide_eq_true_eq]

/-- The chain moves forward and stays inside the program behind its start. -/
theorem lt_of_nextClause? (h : p.nextClause? pc = some q) : pc < q ∧ q < p.size := by
  have hbounds := clauseEnd?_bounds (nextClause?_eq_some_iff.1 h).1
  exact ⟨Nat.lt_of_lt_of_le (p.lt_next pc) hbounds.1, hbounds.2⟩

private theorem clauseAt?_succ_eq_some_iff :
    p.clauseAt? start (i + 1) = some q ↔
      ∃ c, p.clauseAt? start i = some c ∧ p.nextClause? c = some q :=
  Option.bind_eq_some_iff

private theorem clauseAt?_bounds (h : p.clauseAt? start (i + 1) = some q) : i < q ∧ q < p.size := by
  induction i generalizing q with
  | zero =>
    obtain ⟨c, -, hq⟩ := clauseAt?_succ_eq_some_iff.1 h
    have := lt_of_nextClause? hq
    omega
  | succ i ih =>
    obtain ⟨c, hc, hq⟩ := clauseAt?_succ_eq_some_iff.1 h
    have := ih hc
    have := lt_of_nextClause? hq
    omega

private theorem clauseAt?_eq_none (h : p.size < i) : p.clauseAt? start i = none := by
  obtain ⟨i, rfl⟩ : ∃ j, i = j + 1 := ⟨i - 1, by omega⟩
  refine Option.eq_none_iff_forall_not_mem.2 fun q hq => ?_
  have := clauseAt?_bounds hq
  omega

/-- From a clause on, the chain runs along the walk from clause to clause. -/
theorem mem_walk_of_clauseAt? (hclause : p.opcode? start = some .clause)
    (h : p.clauseAt? start i = some q) : q ∈ p.walk start ∧ p.opcode? q = some .clause := by
  induction i generalizing q with
  | zero =>
    cases h
    exact ⟨mem_walk_iff.2 ⟨.refl, lt_size_of_opcode? hclause⟩, hclause⟩
  | succ i ih =>
    obtain ⟨c, hc, hnext⟩ := clauseAt?_succ_eq_some_iff.1 h
    obtain ⟨hend, hop⟩ := nextClause?_eq_some_iff.1 hnext
    obtain ⟨hsteps, hin⟩ := mem_walk_iff.1 (ih hc).1
    obtain ⟨hrest, hq⟩ := mem_walk_iff.1 (clauseEnd?_eq_some hend).1
    exact ⟨mem_walk_iff.2 ⟨(hsteps.next hin).trans hrest, hq⟩, hop⟩

/-- The chain ends at a clause that none follows. -/
theorem le_of_last {c : Nat} {j : Nat} (hi : p.clauseAt? start i = some pc)
    (hlast : p.nextClause? pc = none) (hj : p.clauseAt? start j = some c) : j ≤ i := by
  induction j generalizing c with
  | zero => exact Nat.zero_le i
  | succ j ih =>
    obtain ⟨b, hb, hc⟩ := clauseAt?_succ_eq_some_iff.1 hj
    refine Nat.lt_of_le_of_ne (ih hb) ?_
    rintro rfl
    rw [hi] at hb
    cases hb
    rw [hlast] at hc
    cases hc

end Chain

section Search

theorem acceptingClause_eq (p : Program) (raised : Exception) (pc : Nat) :
    p.acceptingClause raised pc =
      match p.clauseTakes raised pc with
      | .error cause => .error cause
      | .ok true => .ok (some pc)
      | .ok false =>
        match p.clauseEnd? (p.next pc) with
        | none => .error .unendedClause
        | some q => if p.opcode? q = some .endTry then .ok none else p.acceptingClause raised q := by
  rw [acceptingClause.eq_def, clauseTakes]
  cases p.byte? (pc + 1) with
  | none => rfl
  | some count =>
    dsimp only
    by_cases hzero : count = 0
    · rw [if_pos hzero, if_pos hzero]
    · rw [if_neg hzero, if_neg hzero]
      cases p.declares raised (pc + 2) count.toNat with
      | error cause => rfl
      | ok taken =>
        cases taken with
        | true => rfl
        | false =>
          dsimp only
          split
          next hnone => rw [hnone]
          next q hsome => rw [hsome]

theorem SettlesAt.answer {r : Except Fault.Cause (Option Nat)} (h : p.SettlesAt e pc r) :
    p.acceptingClause e pc = r := by
  rw [acceptingClause_eq, clauseTakes_eq]
  cases h with
  | accepted accepts => rw [if_pos accepts]
  | cut refused incomplete => rw [if_neg refused, if_neg incomplete]
  | closed refuses next ends => rw [if_neg refuses.2, if_pos refuses.1, next]; exact if_pos ends
  | unended refuses next => rw [if_neg refuses.2, if_pos refuses.1, next]

/-- A clause that refuses hands the search on to the next one. -/
theorem RefusesAt.pass (h : p.RefusesAt e pc) (hq : p.nextClause? pc = some q) :
    p.acceptingClause e pc = p.acceptingClause e q := by
  obtain ⟨hnext, hop⟩ := nextClause?_eq_some_iff.1 hq
  rw [acceptingClause_eq, clauseTakes_eq, if_neg h.2, if_pos h.1, hnext]
  exact if_neg (by simp [hop])

private theorem settles_or_next (p : Program) (e : Exception) (pc : Nat) :
    (∃ r, p.SettlesAt e pc r) ∨ p.RefusesAt e pc ∧ ∃ q, p.nextClause? pc = some q := by
  by_cases haccepts : p.AcceptsAt e pc
  · exact .inl ⟨_, .accepted haccepts⟩
  by_cases hcomplete : p.CompleteAt pc
  · have hrefuses : p.RefusesAt e pc := ⟨hcomplete, haccepts⟩
    cases hnext : p.clauseEnd? (p.next pc) with
    | none => exact .inl ⟨_, .unended hrefuses hnext⟩
    | some q =>
      rcases (clauseEnd?_eq_some hnext).2 with hclause | hend
      · exact .inr ⟨hrefuses, q, nextClause?_eq_some_iff.2 ⟨hnext, hclause⟩⟩
      · exact .inl ⟨_, .closed hrefuses hnext hend⟩
  · exact .inl ⟨_, .cut haccepts hcomplete⟩

namespace ComesTo

theorem refl (p : Program) (e : Exception) (start : Nat) : p.ComesTo e start 0 start :=
  ⟨rfl, fun j hj => absurd hj (Nat.not_lt_zero j)⟩

private theorem forall_le (h : p.ComesTo e start i pc) (hrefuses : p.RefusesAt e pc) :
    ∀ j ≤ i, ∀ c ∈ p.clauseAt? start j, p.RefusesAt e c := by
  intro j hj c hc
  rcases Nat.lt_or_eq_of_le hj with hlt | rfl
  · exact h.before j hlt c hc
  · rw [h.here] at hc
    cases hc
    exact hrefuses

theorem next (h : p.ComesTo e start i pc) (hrefuses : p.RefusesAt e pc)
    (hq : p.nextClause? pc = some q) : p.ComesTo e start (i + 1) q where
  here := clauseAt?_succ_eq_some_iff.2 ⟨pc, h.here, hq⟩
  before j hj := h.forall_le hrefuses j (Nat.le_of_lt_succ hj)

/-- The clauses that the search has passed do not matter to its answer. -/
theorem same_answer (h : p.ComesTo e start i pc) :
    p.acceptingClause e start = p.acceptingClause e pc := by
  induction i generalizing pc with
  | zero =>
    cases h.here
    rfl
  | succ i ih =>
    obtain ⟨c, hc, hnext⟩ := clauseAt?_succ_eq_some_iff.1 h.here
    have hcomes : p.ComesTo e start i c :=
      ⟨hc, fun j hj => h.before j (Nat.lt_succ_of_lt hj)⟩
    rw [ih hcomes, (h.before i (Nat.lt_succ_self i) c hc).pass hnext]

/-- If the search ends at a clause that refuses, all clauses of the chain do. -/
theorem forall_of_last (h : p.ComesTo e start i pc) (hrefuses : p.RefusesAt e pc)
    (hlast : p.nextClause? pc = none) : ∀ j, ∀ c ∈ p.clauseAt? start j, p.RefusesAt e c :=
  fun j c hc => h.forall_le hrefuses j (le_of_last h.here hlast hc) c hc

end ComesTo

private theorem settles_or_comesTo (p : Program) (e : Exception) (start i : Nat) :
    (∃ j pc r, p.ComesTo e start j pc ∧ p.SettlesAt e pc r) ∨ ∃ pc, p.ComesTo e start i pc := by
  induction i with
  | zero => exact .inr ⟨start, .refl p e start⟩
  | succ i ih =>
    rcases ih with hdone | ⟨pc, hpc⟩
    · exact .inl hdone
    · rcases settles_or_next p e pc with ⟨r, hr⟩ | ⟨hrefuses, q, hq⟩
      · exact .inl ⟨i, pc, r, hpc, hr⟩
      · exact .inr ⟨q, hpc.next hrefuses hq⟩

/-- The answer of the search is what the first clause that settles it says. There is one, since the
chain leaves the program after as many clauses as the program has bytes. -/
theorem acceptingClause_eq_iff {r : Except Fault.Cause (Option Nat)} :
    p.acceptingClause e start = r ↔ ∃ i pc, p.ComesTo e start i pc ∧ p.SettlesAt e pc r := by
  constructor
  · intro h
    rcases settles_or_comesTo p e start (p.size + 1) with ⟨i, pc, r', hcomes, hsettles⟩ | ⟨pc, hpc⟩
    · obtain rfl : r = r' := h.symm.trans (hcomes.same_answer.trans hsettles.answer)
      exact ⟨i, pc, hcomes, hsettles⟩
    · have hnone : p.clauseAt? start (p.size + 1) = none := clauseAt?_eq_none (Nat.lt_succ_self _)
      rw [hpc.here] at hnone
      cases hnone
  · rintro ⟨i, pc, hcomes, hsettles⟩
    exact hcomes.same_answer.trans hsettles.answer

private theorem acceptingClause_eq_some_iff :
    p.acceptingClause e start = .ok (some q) ↔
      ∃ i, p.clauseAt? start i = some q ∧ p.AcceptsAt e q ∧
        ∀ j < i, ∀ c ∈ p.clauseAt? start j, p.RefusesAt e c := by
  rw [acceptingClause_eq_iff]
  constructor
  · rintro ⟨i, pc, hcomes, hsettles⟩
    cases hsettles with
    | accepted accepts => exact ⟨i, hcomes.here, accepts, hcomes.before⟩
  · rintro ⟨i, hhere, haccepts, hbefore⟩
    exact ⟨i, q, ⟨hhere, hbefore⟩, .accepted haccepts⟩

/-- The search for a clause only moves along the walk from clause to clause. -/
theorem acceptingClause_eq_some {target : Nat} (hclause : p.opcode? pc = some .clause)
    (h : p.acceptingClause e pc = .ok (some target)) :
    target ∈ p.walk pc ∧ p.opcode? target = some .clause := by
  obtain ⟨i, htarget, -⟩ := acceptingClause_eq_some_iff.1 h
  exact mem_walk_of_clauseAt? hclause htarget

theorem acceptingClause_eq_missingOperand_iff :
    p.acceptingClause e start = .error .missingOperand ↔
      ∃ i, ∃ c ∈ p.clauseAt? start i, (∀ j < i, ∀ b ∈ p.clauseAt? start j, p.RefusesAt e b) ∧
        ¬ p.AcceptsAt e c ∧ ¬ p.CompleteAt c := by
  rw [acceptingClause_eq_iff]
  constructor
  · rintro ⟨i, pc, hcomes, hsettles⟩
    cases hsettles with
    | cut refused incomplete => exact ⟨i, pc, hcomes.here, hcomes.before, refused, incomplete⟩
  · rintro ⟨i, c, hhere, hbefore, hrefused, hincomplete⟩
    exact ⟨i, c, ⟨hhere, hbefore⟩, .cut hrefused hincomplete⟩

private theorem acceptingClause_eq_none_iff :
    p.acceptingClause e start = .ok none ↔
      (∀ i, ∀ c ∈ p.clauseAt? start i, p.RefusesAt e c) ∧
        ∃ i, ∃ c ∈ p.clauseAt? start i, ∃ q ∈ p.clauseEnd? (p.next c),
          p.opcode? q = some .endTry := by
  rw [acceptingClause_eq_iff]
  constructor
  · rintro ⟨i, pc, hcomes, hsettles⟩
    cases hsettles with
    | @closed q refuses next ends =>
      have hlast : p.nextClause? pc = none := by simp [nextClause?, next, ends]
      exact ⟨hcomes.forall_of_last refuses hlast, i, pc, hcomes.here, q, next, ends⟩
  · rintro ⟨hall, i, c, hc, q, hq, hend⟩
    exact ⟨i, c, ⟨hc, fun j _ => hall j⟩, .closed (hall i c hc) hq hend⟩

private theorem acceptingClause_eq_unendedClause_iff :
    p.acceptingClause e start = .error .unendedClause ↔
      (∀ i, ∀ c ∈ p.clauseAt? start i, p.RefusesAt e c) ∧
        ∃ i, ∃ c ∈ p.clauseAt? start i, p.clauseEnd? (p.next c) = none := by
  rw [acceptingClause_eq_iff]
  constructor
  · rintro ⟨i, pc, hcomes, hsettles⟩
    cases hsettles with
    | unended refuses next =>
      have hlast : p.nextClause? pc = none := by rw [nextClause?, next]; rfl
      exact ⟨hcomes.forall_of_last refuses hlast, i, pc, hcomes.here, next⟩
  · rintro ⟨hall, i, c, hc, hnext⟩
    exact ⟨i, c, ⟨hc, fun j _ => hall j⟩, .unended (hall i c hc) hnext⟩

private theorem cause_of_acceptingClause {cause : Fault.Cause}
    (h : p.acceptingClause e start = .error cause) :
    cause = .missingOperand ∨ cause = .unendedClause := by
  obtain ⟨i, pc, -, hsettles⟩ := acceptingClause_eq_iff.1 h
  cases hsettles with
  | cut => exact .inl rfl
  | unended => exact .inr rfl

end Search

/-- The search for a clause follows a chain that ends inside the program, and has four answers. It
finds the first clause of the chain that accepts, if all before it are complete. It finds none if all
refuse and the scope ends. It lacks an operand if the first clause that does not refuse does not accept
either and is cut off. And it misses the end of the scope if all refuse and nothing ends the last. -/
theorem acceptingClause_along_chain (p : Program) (e : Exception) (start : Nat) :
    (∀ i, p.size < i → p.clauseAt? start i = none) ∧
      (∀ q, p.acceptingClause e start = .ok (some q) ↔
        ∃ i, p.clauseAt? start i = some q ∧ p.AcceptsAt e q ∧
          ∀ j < i, ∀ c ∈ p.clauseAt? start j, p.RefusesAt e c) ∧
      (p.acceptingClause e start = .ok none ↔
        (∀ i, ∀ c ∈ p.clauseAt? start i, p.RefusesAt e c) ∧
          ∃ i, ∃ c ∈ p.clauseAt? start i, ∃ q ∈ p.clauseEnd? (p.next c),
            p.opcode? q = some .endTry) ∧
      (p.acceptingClause e start = .error .missingOperand ↔
        ∃ i, ∃ c ∈ p.clauseAt? start i, (∀ j < i, ∀ b ∈ p.clauseAt? start j, p.RefusesAt e b) ∧
          ¬ p.AcceptsAt e c ∧ ¬ p.CompleteAt c) ∧
      (p.acceptingClause e start = .error .unendedClause ↔
        (∀ i, ∀ c ∈ p.clauseAt? start i, p.RefusesAt e c) ∧
          ∃ i, ∃ c ∈ p.clauseAt? start i, p.clauseEnd? (p.next c) = none) ∧
      ∀ cause, p.acceptingClause e start = .error cause →
        cause = .missingOperand ∨ cause = .unendedClause :=
  ⟨fun _ => clauseAt?_eq_none, fun _ => acceptingClause_eq_some_iff, acceptingClause_eq_none_iff,
    acceptingClause_eq_missingOperand_iff, acceptingClause_eq_unendedClause_iff,
    fun _ => cause_of_acceptingClause⟩

end PixelCode.Program
