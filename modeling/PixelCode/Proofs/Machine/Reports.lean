import PixelCode.Proofs.Machine.Alignment
import PixelCode.Proofs.Machine.Ending
import PixelCode.Proofs.Machine.Failure

/-! What instructions report. Most reports are plain; a raised exception that is taken makes a clause due,
and the next instruction is that clause. -/
namespace PixelCode

namespace Event

def isPlain : Event → Bool
  | dispatched .. | skipped .. | halted .. | returned .. | registered .. => true
  | _ => false

def isFinal : Event → Bool
  | faulted .. | finished .. => true
  | _ => false

end Event

def Step.events : Step → List Event
  | .next _ events _ | .stop _ events | .fault _ events _ => events

def Step.IsPlain (s : Step) : Prop := ∀ e ∈ s.events, e.isPlain = true

namespace Machine

variable {p : Program} {m m' : Machine} {events : List Event} {text : String}

section Plain

private theorem isPlain_of_nil {s : Step} (h : s.events = []) : s.IsPlain := by
  intro e he
  rw [h] at he
  cases he

theorem IsPlain.after {s : Step} (h : s.IsPlain) {e : Event} (he : e.isPlain = true) :
    (s.after e).IsPlain := by
  cases s <;> exact List.forall_mem_cons.2 ⟨he, h⟩

/-- Only divisions and clauses report more than plain events. -/
theorem execute_isPlain {op : Opcode} (hdiv : op ≠ .div) (hmod : op ≠ .mod) (hclause : op ≠ .clause) :
    (m.execute p op).IsPlain := by
  have hform := execute_form p m op
  generalize m.execute p op = step at hform ⊢
  cases hform with
  | fault | silent | printed => exact isPlain_of_nil rfl
  | halted | returned | registered => exact List.forall_mem_singleton.2 rfl
  | entered => exact absurd rfl hclause
  | routed divides => exact absurd divides (not_or.2 ⟨hdiv, hmod⟩)
  | escaped divides => exact absurd divides (not_or.2 ⟨hdiv, hmod⟩)

end Plain

inductive Reports (p : Program) (m m' : Machine) : List Event → String → Prop where
  | plain {events : List Event} {text : String} (plain : ∀ e ∈ events, e.isPlain = true)
      (settled : m.unwinding = true → p.opcode? m.pc ≠ some .clause)
      (flag : m'.unwinding = true → m.unwinding = true) : Reports p m m' events text
  | raised {op : Opcode} {scope : Scope} {outer : List Scope} {target : Nat}
      (op_eq : p.opcode? m.pc = some op) (divides : op = .div ∨ op = .mod)
      (taken : Takes p .divisionByZero scope outer target m.scopes)
      (left : m' = { m with
        pc := target
        stack := m.stack.pop.pop.truncate scope.depth
        calls := m.calls.shrink scope.calls
        scopes := { scope with spent := true } :: outer
        unwinding := true }) :
      Reports p m m' [.dispatched m.pc op m.stack.size, .raised .divisionByZero (m.pc + 1),
        .handled target scope.depth] ""
  | entered (op : p.opcode? m.pc = some .clause) (inside : p.next m.pc ≤ p.size)
      (unwinding : m.unwinding = true) (settled : m'.unwinding = false) :
      Reports p m m' [.dispatched m.pc .clause m.stack.size,
        .entered (p.next m.pc) (p.slice (m.pc + 2) (p.next m.pc))] ""

section Inversion

private theorem division_reports {op : Opcode} {f : Float → Float → Float} {rest : List Event}
    (hop : p.opcode? m.pc = some op) (hdivides : op = .div ∨ op = .mod)
    (h : { m with pc := m.pc + 1 }.division p f = .next m' rest text) :
    Reports p m m' (.dispatched m.pc op m.stack.size :: rest) text := by
  obtain ⟨a, -, h⟩ := withTop_eq_next h
  obtain ⟨b, -, h⟩ := withTop_eq_next h
  split at h
  next =>
    obtain ⟨more, hraise, rfl⟩ := after_eq_next h
    obtain ⟨scope, outer, target, htakes, hm, rfl, rfl⟩ := raiseTo_eq_next hraise
    exact .raised hop hdivides htakes hm
  next =>
    cases h
    refine .plain (List.forall_mem_singleton.2 rfl) ?_ id
    intro _ hclause
    rw [hop, Option.some.injEq] at hclause
    subst hclause
    rcases hdivides with hdiv | hmod
    · cases hdiv
    · cases hmod

private theorem clause_reports {rest : List Event} (hop : p.opcode? m.pc = some .clause)
    (h : { m with pc := m.pc + 1 }.clause p = .next m' rest text) :
    Reports p m m' (.dispatched m.pc .clause m.stack.size :: rest) text := by
  cases hscopes : m.scopes with
  | nil =>
    simp only [clause, hscopes] at h
    cases h
  | cons scope outer =>
    rw [clause_eq_of_scopes hop hscopes] at h
    split at h
    next hinside =>
      dsimp only at h
      split at h
      next hunwinding =>
        cases h
        exact .entered hop hinside hunwinding rfl
      next hsettled =>
        split at h
        next =>
          cases h
          exact .plain (List.forall_mem_singleton.2 rfl) (fun h => absurd h hsettled) id
        next => cases h
    next => cases h

/-- Only a raised exception sets the flag. -/
theorem Move.unwinding (h : Move p m m') (hdiv : p.opcode? m.pc ≠ some .div)
    (hmod : p.opcode? m.pc ≠ some .mod) (hflag : m'.unwinding = true) : m.unwinding = true := by
  cases h with
  | raise scope outer target op taken => exact absurd op (not_or.2 ⟨hdiv, hmod⟩)
  | enter => cases hflag
  | endTry => cases hflag
  | _ => exact hflag

/-- Every instruction after which the run goes on reports in one of the three ways. -/
theorem dispatch_reports {b : UInt8} (hb : p.byte? m.pc = some b)
    (h : m.dispatch p b = .next m' events text) : Reports p m m' events text := by
  have hmove := dispatch_move hb h
  have hop := Program.opcode?_of_byte? hb
  unfold dispatch at h
  split at h
  next op hbyte =>
    rw [hbyte] at hop
    obtain ⟨rest, hexecute, rfl⟩ := after_eq_next h
    by_cases hdiv : op = .div
    · subst hdiv
      exact division_reports hop (.inl rfl) hexecute
    by_cases hmod : op = .mod
    · subst hmod
      exact division_reports hop (.inr rfl) hexecute
    by_cases hclause : op = .clause
    · subst hclause
      exact clause_reports hop hexecute
    have hrest : (Step.next m' rest text).IsPlain := hexecute ▸ execute_isPlain hdiv hmod hclause
    refine .plain (List.forall_mem_cons.2 ⟨rfl, hrest⟩) ?_ (hmove.unwinding ?_ ?_)
    · simp [hop, hclause]
    · simp [hop, hdiv]
    · simp [hop, hmod]
  next hbyte =>
    cases h
    rw [hbyte] at hop
    exact .plain (List.forall_mem_singleton.2 rfl) (by simp [hop]) id

/-- An instruction that ends the run without a fault reports plain events. -/
theorem dispatch_stop_isPlain {b : UInt8} (h : m.dispatch p b = .stop m' events) :
    ∀ e ∈ events, e.isPlain = true := by
  have hstop := congrArg Step.isStop h
  have hevents : (m.dispatch p b).events = events := congrArg Step.events h
  rw [← hevents]
  unfold dispatch at hstop ⊢
  split at hstop
  next op hbyte =>
    rw [isStop_after] at hstop
    apply IsPlain.after _ rfl
    by_cases hhalt : op = .halt
    · exact hhalt ▸ execute_isPlain nofun nofun nofun
    by_cases hret : op = .ret
    · exact hret ▸ execute_isPlain nofun nofun nofun
    rw [execute_isStop hhalt hret] at hstop
    cases hstop
  next => cases hstop

end Inversion

end Machine
end PixelCode
