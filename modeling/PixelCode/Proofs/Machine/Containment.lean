import PixelCode.Proofs.Machine.Ending
import PixelCode.Proofs.Machine.Failure

/-! What a failing instruction has done before it failed. It has written no variable, registered no function and
entered or left no call. Some values may be gone from the operand stack, a clause may have noted its types, and
an exception that nobody took may have closed scopes. -/
namespace PixelCode

namespace Stack

private theorem pop_isPrefix (s : Stack) : s.pop.toList <+: s.toList := by
  rw [toList_pop]
  exact List.dropLast_prefix _

theorem size_pop (s : Stack) : s.pop.size = s.size - 1 :=
  Array.size_pop

end Stack

def Step.text : Step → String
  | .next _ _ text => text
  | _ => ""

namespace Machine

/-- The next instruction divides by zero: it takes two values, and the one on top is the divisor. -/
def DividesByZero (p : Program) (m : Machine) : Prop :=
  (p.opcode? m.pc = some .div ∨ p.opcode? m.pc = some .mod) ∧
    ∃ below b a, m.stack.toList = below ++ [b, a] ∧ (a == 0.0) = true

inductive ScopesLeft (p : Program) (m : Machine) : List Scope → Prop where
  | kept : ScopesLeft p m m.scopes
  | noted (s : Scope) (outer : List Scope) (accepts : List UInt8) (op : p.opcode? m.pc = some .clause)
      (open_ : m.scopes = s :: outer) : ScopesLeft p m ({ s with accepts } :: outer)
  /-- An exception was raised, and has closed the scopes that let it pass. -/
  | raised (rest : List Scope) (zero : DividesByZero p m) (outer : rest <:+ m.scopes) : ScopesLeft p m rest

/-- An instruction that failed in `m` and left `m'` has done no more than to take at most `taken` values from
the operand stack, and what is said of the scopes. -/
structure Contained (p : Program) (m m' : Machine) (taken : Nat) : Prop where
  vars : m'.vars = m.vars
  functions : m'.functions = m.functions
  calls : m'.calls = m.calls
  stack : m'.stack.toList <+: m.stack.toList
  lost : m.stack.size ≤ m'.stack.size + taken
  scopes : ScopesLeft p m m'.scopes

variable {p : Program} {m m' : Machine} {events : List Event} {cause : Fault.Cause} {text : String}

section Raising

private theorem Escapes.isSuffix {e : Exception} {rest scopes : List Scope}
    (h : Escapes p e cause rest scopes) : rest <:+ scopes := by
  induction h with
  | unhandled => exact List.suffix_refl _
  | broken => exact List.suffix_refl _
  | further _ _ ih => exact ih.trans (List.suffix_cons _ _)

/-- A division that fails with fewer scopes open has taken two values, the divisor being zero. -/
theorem divisor_of_division {f : Float → Float → Float} (h : m.division p f = .fault m' events cause)
    (hscopes : m'.scopes ≠ m.scopes) :
    ∃ below b a, m.stack.toList = below ++ [b, a] ∧ (a == 0.0) = true := by
  rcases withTop_eq_fault h with ⟨rfl, -, -⟩ | ⟨a, ha, h⟩
  · exact absurd rfl hscopes
  rcases withTop_eq_fault h with ⟨rfl, -, -⟩ | ⟨b, hb, h⟩
  · exact absurd rfl hscopes
  split at h
  next hzero =>
    rw [Stack.top?_eq] at ha hb
    obtain ⟨rest, hrest⟩ := List.getLast?_eq_some_iff.1 ha
    obtain ⟨below, hbelow⟩ := List.getLast?_eq_some_iff.1 hb
    rw [Stack.toList_pop, hrest, List.dropLast_concat] at hbelow
    exact ⟨below, b, a, by rw [hrest, hbelow, List.append_assoc]; rfl, hzero⟩
  next => cases h

private theorem dividesByZero_of_dispatch {byte : UInt8} {op : Opcode}
    (hb : p.byte? m.pc = some byte)
    (hop : p.opcode? m.pc = some op) (hdivides : op = .div ∨ op = .mod)
    (h : m.dispatch p byte = .fault m' events cause) (hscopes : m'.scopes ≠ m.scopes) :
    DividesByZero p m := by
  have hbyte := (Program.opcode?_of_byte? hb).symm.trans hop
  simp only [dispatch, hbyte] at h
  obtain ⟨rest, hexecute, -⟩ := after_eq_fault h
  rcases hdivides with rfl | rfl
  · exact ⟨.inl hop, divisor_of_division (m := { m with pc := m.pc + 1 }) hexecute hscopes⟩
  · exact ⟨.inr hop, divisor_of_division (m := { m with pc := m.pc + 1 }) hexecute hscopes⟩

end Raising

section Faults

/-- A failure that changes at most the program counter is contained. -/
theorem Contained.of_pc (pc taken : Nat) : Contained p m { m with pc } taken :=
  ⟨rfl, rfl, rfl, List.prefix_refl _, Nat.le_add_right _ _, .kept⟩

/-- A failure that takes the top of the operand stack is contained. -/
theorem Contained.of_pop (pc : Nat) {taken : Nat} (h : 0 < taken) :
    Contained p m { m with pc, stack := m.stack.pop } taken := by
  refine ⟨rfl, rfl, rfl, m.stack.pop_isPrefix, ?_, .kept⟩
  show m.stack.size ≤ m.stack.pop.size + taken
  rw [Stack.size_pop]
  omega

private theorem contained_of_fault {byte : UInt8} (hb : p.byte? m.pc = some byte)
    (h : m.dispatch p byte = .fault m' events cause) : Contained p m m' 2 := by
  have hzero {op : Opcode} (hop : p.opcode? m.pc = some op) (hdivides : op = .div ∨ op = .mod) :=
    dividesByZero_of_dispatch hb hop hdivides h
  cases dispatch_failure hb h with
  | operand | load | call | define | openTry | misplaced => exact .of_pc _ _
  | value stack _ _ _ left =>
    rcases left with rfl | rfl
    · exact .of_pc _ _
    · exact .of_pop _ (by decide)
  | unended scope outer op _ open_ =>
    exact ⟨rfl, rfl, rfl, List.prefix_refl _, Nat.le_add_right _ _, .noted scope outer _ op open_⟩
  | escape rest op divides escapes =>
    refine ⟨rfl, rfl, rfl, (Stack.pop_isPrefix _).trans (Stack.pop_isPrefix _), ?_, ?_⟩
    · show m.stack.size ≤ m.stack.pop.pop.size + 2
      rw [Stack.size_pop, Stack.size_pop]
      omega
    · by_cases hrest : rest = m.scopes
      · exact hrest ▸ .kept
      · exact .raised rest (hzero op divides hrest) escapes.isSuffix

end Faults

section Refusals

private theorem text_after (step : Step) (e : Event) : (step.after e).text = step.text := by
  cases step <;> rfl

/-- Only four operations print. -/
theorem execute_text {op : Opcode} (h : op ∉ [.printNum, .printChar, .printlnNum, .printlnChar]) :
    (m.execute p op).text = "" := by
  have hform := execute_form p m op
  generalize m.execute p op = step at hform ⊢
  cases hform with
  | printed _ _ prints => exact absurd prints h
  | _ => rfl

private theorem print_eq_next {f : Float → String} (h : m.print f = .next m' events text) :
    m' = { m with stack := m.stack.pop } := by
  obtain ⟨v, -, h⟩ := withTop_eq_next h
  cases h
  rfl

/-- An instruction whose text is not taken has moved on and taken one value, and done nothing else. -/
theorem contained_of_refused {byte : UInt8} (h : m.dispatch p byte = .next m' events text)
    {out out' : Sink} {reason : String} (hrefuses : out.writeText text = (out', some reason)) :
    Contained p m m' 1 ∧ m'.scopes = m.scopes := by
  have hprints : (m.dispatch p byte).text ≠ "" := by
    rw [h]
    rintro (rfl : text = "")
    rw [Sink.writeText_empty] at hrefuses
    cases hrefuses
  unfold dispatch at h hprints
  split at h
  next op hbyte =>
    obtain ⟨rest, hexecute, -⟩ := after_eq_next h
    simp only [hbyte, text_after] at hprints
    have hpops : m' = { m with pc := m.pc + 1, stack := m.stack.pop } := by
      cases op with
      | printNum | printChar | printlnNum | printlnChar =>
        exact print_eq_next (m := { m with pc := m.pc + 1 }) hexecute
      | _ => exact absurd (execute_text (by decide)) hprints
    rw [hpops]
    exact ⟨.of_pop _ Nat.one_pos, rfl⟩
  next hbyte =>
    rw [hbyte] at hprints
    exact absurd rfl hprints

/-- An instruction that ends the run without a fault has moved on, and done nothing else. -/
theorem contained_of_stop {byte : UInt8} (hb : p.byte? m.pc = some byte)
    (h : m.dispatch p byte = .stop m' events) : Contained p m m' 1 ∧ m'.scopes = m.scopes := by
  obtain ⟨exit, hlast, hending⟩ := last_of_stop hb h
  cases hlast with
  | offEnd => exact ⟨.of_pc _ _, rfl⟩
  | halted => exact ⟨.of_pc _ _, rfl⟩
  | returned => exact ⟨.of_pc _ _, rfl⟩
  | faulted => cases hending

end Refusals

/-- Whatever state a run is in, an instruction with which it ends in a fault or at a sink that refuses leaves the
variables, the functions and the calls as they were. It adds nothing to the operand stack and takes at most two
values from it, or one if it is the sink that refuses. Only a clause changes a scope, and that only in the types
it noted last; and only a division by zero closes scopes. The fault shows the operand stack that is left. (With
fuel for one instruction a run has a result only if it ends with that instruction.) -/
theorem failure_contained (p : Program) (m : Machine) (byte : UInt8) (out : Sink) (trace : Trace) (r : Run)
    (hb : p.byte? m.pc = some byte) (hrun : runFrom p 1 m out trace = some r) :
    (∀ f, r.ending = .faulted f → Contained p m r.machine 2 ∧ f.stack = r.machine.stack.toList) ∧
      ∀ reason, r.ending = .refused reason → Contained p m r.machine 1 ∧ r.machine.scopes = m.scopes := by
  rw [runFrom, hb] at hrun
  dsimp only at hrun
  split at hrun
  next m' events text hnext =>
    split at hrun
    next => cases hrun
    next out' refusal hrefuses =>
      cases hrun
      refine ⟨?_, fun _ _ => contained_of_refused hnext hrefuses⟩
      intro f hf
      cases hf
  next m' events hstop =>
    unfold finish at hrun
    split at hrun
    next =>
      cases hrun
      refine ⟨?_, fun _ _ => contained_of_stop hb hstop⟩
      intro f hf
      cases hf
    next =>
      cases hrun
      constructor
      · intro f hf
        cases hf
      · intro reason hreason
        cases hreason
  next m' events cause hfault =>
    cases hrun
    constructor
    · intro f hf
      cases hf
      exact ⟨contained_of_fault hb hfault, rfl⟩
    · intro reason hreason
      cases hreason

/-- A division by zero in two scopes. The inner one has a clause for another exception, and the clause of the
outer one is cut off. -/
def twoScopes : Program :=
  .ofList [0x01, 7, 0x70, 0x01, 1, 0x70, 0x01, 0, 0x13, 0x71, 1, 5, 0x72, 0x71]

private theorem twoScopes_fails :
    ∃ m r f, initial.later twoScopes 5 = some m ∧
      runFrom twoScopes 1 m .unlimited (.start none) = some r ∧ r.ending = .faulted f ∧
      m.pc = 8 ∧ m.stack.size = 3 ∧ m.scopes.length = 2 ∧ r.machine.stack.size = 1 ∧
      r.machine.scopes.length = 1 := by
  have hrun : (initial.later twoScopes 5).any (fun m =>
      (runFrom twoScopes 1 m .unlimited (.start none)).any fun r => r.ending.fault?.any fun f =>
        decide (m.pc = 8 ∧ m.stack.size = 3 ∧ m.scopes.length = 2 ∧ r.machine.stack.size = 1 ∧
          r.machine.scopes.length = 1)) = true := by
    decide +kernel
  obtain ⟨m, hm, hlast⟩ := (Option.any_eq_true _ _).1 hrun
  obtain ⟨r, f, hr⟩ := exists_faulted hlast
  exact ⟨m, r, f, hm, hr⟩

/-- Both values are gone, and of the two scopes the inner one. -/
theorem failure_contained_twoScopes :
    ∃ m r f, Reachable twoScopes m ∧ twoScopes.byte? m.pc = some 0x13 ∧
      runFrom twoScopes 1 m .unlimited (.start none) = some r ∧ r.ending = .faulted f ∧
      m.stack.size = 3 ∧ r.machine.stack.size = 1 ∧ m.scopes.length = 2 ∧ r.machine.scopes.length = 1 ∧
      Contained twoScopes m r.machine 2 ∧ f.stack = r.machine.stack.toList := by
  obtain ⟨m, r, f, hm, hrun, hending, hpc, hstack, hscopes, htaken, hclosed⟩ := twoScopes_fails
  have hbyte : twoScopes.byte? m.pc = some 0x13 := by
    rw [hpc]
    rfl
  have hcontained := (failure_contained twoScopes m 0x13 .unlimited (.start none) r hbyte hrun).1 f hending
  exact ⟨m, r, f, reachable_of_later hm, hbyte, hrun, hending, hstack, htaken, hscopes, hclosed, hcontained⟩

end Machine
end PixelCode
