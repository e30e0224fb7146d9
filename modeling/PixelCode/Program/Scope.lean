import PixelCode.Fault
import PixelCode.Program

/-! Forward scans: where a function body, a scope and its clauses end. All of them follow the linear
walk, so an operand byte is never taken for an operation. -/
namespace PixelCode.Program

def firstReturn? (p : Program) (pc : Nat) : Option Nat :=
  if pc < p.size then
    if p.opcode? pc = some .ret then some pc else p.firstReturn? (p.next pc)
  else none
termination_by p.size - pc
decreasing_by have := p.lt_next pc; omega

theorem firstReturn?_eq_find? (p : Program) (pc : Nat) :
    p.firstReturn? pc = (p.walk pc).find? fun q => p.opcode? q = some .ret := by
  fun_induction firstReturn? p pc with
  | case1 pc h hr => rw [walk, if_pos h]; simp [hr]
  | case2 pc h hr ih => rw [walk, if_pos h]; simp [hr, ih]
  | case3 pc h => rw [walk, if_neg h]; rfl

/-- The first clause at or after `pc` that no inner scope contains, unless the end of the scope
comes first; `depth` inner scopes are open at `pc`. -/
def clauseFrom? (p : Program) (depth pc : Nat) : Option Nat :=
  if pc < p.size then
    match p.opcode? pc, depth with
    | some .openTry, depth => p.clauseFrom? (depth + 1) (p.next pc)
    | some .endTry, 0 => none
    | some .endTry, depth + 1 => p.clauseFrom? depth (p.next pc)
    | some .clause, 0 => some pc
    | _, depth => p.clauseFrom? depth (p.next pc)
  else none
termination_by p.size - pc
decreasing_by
  all_goals
    have := p.lt_next pc
    omega

def firstClause? (p : Program) (start : Nat) : Option Nat := p.clauseFrom? 0 start

/-- The first clause or end of scope at or after `pc` that no inner scope contains; `depth` inner
scopes are open at `pc`. -/
def clauseEndFrom? (p : Program) (depth pc : Nat) : Option Nat :=
  if pc < p.size then
    match p.opcode? pc, depth with
    | some .openTry, depth => p.clauseEndFrom? (depth + 1) (p.next pc)
    | some .clause, 0 => some pc
    | some .endTry, 0 => some pc
    | some .endTry, depth + 1 => p.clauseEndFrom? depth (p.next pc)
    | _, depth => p.clauseEndFrom? depth (p.next pc)
  else none
termination_by p.size - pc
decreasing_by
  all_goals
    have := p.lt_next pc
    omega

/-- Where the clause body that contains `start` ends: at the next clause of its scope or at the end
of the scope. -/
def clauseEnd? (p : Program) (start : Nat) : Option Nat := p.clauseEndFrom? 0 start

theorem mem_walk_of_clauseEndFrom? {p : Program} {depth pc q : Nat}
    (h : p.clauseEndFrom? depth pc = some q) : q ∈ p.walk pc := by
  fun_induction clauseEndFrom? p depth pc <;> rw [walk] <;> simp_all

theorem clauseEnd?_bounds {p : Program} {start q : Nat} (h : p.clauseEnd? start = some q) :
    start ≤ q ∧ q < p.size :=
  p.mem_walk_bounds start q (mem_walk_of_clauseEndFrom? h)

/-- Whether an exception code is among the `count` type bytes from `pc` on. The search ends at a
match, so only the bytes before it have to be present. -/
def declares (p : Program) (raised : Exception) : Nat → Nat → Except Fault.Cause Bool
  | _, 0 => .ok false
  | pc, count + 1 =>
    match p.byte? pc with
    | none => .error .missingOperand
    | some code => if code = raised.code then .ok true else p.declares raised (pc + 1) count

/-- The first clause of a scope, from the one at `pc` on, that accepts an exception; `none` if the
end of the scope is reached. A clause without types accepts every exception. -/
def acceptingClause (p : Program) (raised : Exception) (pc : Nat) :
    Except Fault.Cause (Option Nat) :=
  match p.byte? (pc + 1) with
  | none => .error .missingOperand
  | some count =>
    if count = 0 then .ok (some pc)
    else match p.declares raised (pc + 2) count.toNat with
      | .error cause => .error cause
      | .ok true => .ok (some pc)
      | .ok false =>
        match he : p.clauseEnd? (p.next pc) with
        | none => .error .unendedClause
        | some q =>
          have : pc < q ∧ q < p.size :=
            ⟨Nat.lt_of_lt_of_le (p.lt_next pc) (clauseEnd?_bounds he).1, (clauseEnd?_bounds he).2⟩
          if p.opcode? q = some .endTry then .ok none else p.acceptingClause raised q
termination_by p.size - pc

end PixelCode.Program
