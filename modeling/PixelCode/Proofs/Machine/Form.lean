import PixelCode.Machine.Step

/-! The forms that the outcome of an operation can have: whether the run goes on, what is reported and whether
anything is printed. -/
namespace PixelCode

inductive Step.Form : Opcode → Step → Prop where
  | fault {op : Opcode} (m : Machine) (cause : Fault.Cause) : Form op (.fault m [] cause)
  | silent {op : Opcode} (m : Machine) : Form op (.silent m)
  | printed {op : Opcode} (m : Machine) (text : String)
      (prints : op ∈ [.printNum, .printChar, .printlnNum, .printlnChar]) : Form op (.next m [] text)
  | halted (m : Machine) (pc : Nat) : Form .halt (.stop m [.halted pc])
  | returned (m : Machine) (pc : Nat) : Form .ret (.stop m [.returned pc])
  | registered (m : Machine) (id : UInt8) (entry : Nat) : Form .func (.next m [.registered id entry] "")
  | entered (m : Machine) (pc : Nat) (accepts : List UInt8) : Form .clause (.next m [.entered pc accepts] "")
  | routed {op : Opcode} (divides : op = .div ∨ op = .mod) (m : Machine) (e : Exception)
      (pc target depth : Nat) : Form op (.next m [.raised e pc, .handled target depth] "")
  | escaped {op : Opcode} (divides : op = .div ∨ op = .mod) (m : Machine) (e : Exception) (pc : Nat)
      (cause : Fault.Cause) : Form op (.fault m [.raised e pc] cause)

namespace Machine
variable {p : Program} {m : Machine} {P : Step → Prop}

/-- What holds of running out of values and of all that is done with a value holds of both together. -/
theorem withTop_elim {k : Machine → Float → Step} (hempty : P (.fault m [] .stackUnderflow))
    (htop : ∀ m v, P (k m v)) : P (m.withTop k) := by
  unfold withTop
  split
  · exact htop _ _
  · exact hempty

private theorem withOperand_elim {k : Machine → UInt8 → Step}
    (hmissing : P (.fault { m with pc := m.pc + 1 } [] .missingOperand))
    (hread : ∀ m b, P (k m b)) : P (m.withOperand p k) := by
  unfold withOperand
  split
  · exact hread _ _
  · exact hmissing

private theorem withOperands_elim {count : Nat} {k : Machine → List UInt8 → Step}
    (hmissing : ∀ m, P (.fault m [] .missingOperand)) (hread : ∀ m bs, P (k m bs)) :
    P (withOperands p count m k) := by
  induction count generalizing m k with
  | zero => exact hread m []
  | succ count ih => exact withOperand_elim (hmissing _) fun m b => ih fun m bs => hread m (b :: bs)

section Forms
variable {op : Opcode}

private theorem binary_form (f : Float → Float → Float) : Step.Form op (m.binary f) :=
  withTop_elim (.fault _ _) fun _ _ => withTop_elim (.fault _ _) fun _ _ => .silent _

private theorem print_form (f : Float → String)
    (hprints : op ∈ [.printNum, .printChar, .printlnNum, .printlnChar]) : Step.Form op (m.print f) :=
  withTop_elim (.fault _ _) fun _ _ => .printed _ _ hprints

private theorem raise_form (hdivides : op = .div ∨ op = .mod) (e : Exception) :
    Step.Form op (m.raise p e) := by
  unfold raise
  generalize m.scopes = scopes
  fun_induction raiseTo p e m scopes with
  | case1 => exact .escaped hdivides _ _ _ _
  | case2 _ _ _ ih => exact ih
  | case3 => exact .escaped hdivides _ _ _ _
  | case4 _ _ _ _ ih => exact ih
  | case5 => exact .routed hdivides _ _ _ _ _

private theorem division_form (hdivides : op = .div ∨ op = .mod) (f : Float → Float → Float) :
    Step.Form op (m.division p f) := by
  refine withTop_elim (.fault _ _) fun m a => withTop_elim (.fault _ _) fun m b => ?_
  split
  · exact raise_form hdivides _
  · exact .silent _

private theorem clause_form : Step.Form .clause (m.clause p) := by
  unfold clause
  split
  · exact .fault _ _
  · refine withOperand_elim (.fault _ _) fun m count => withOperands_elim (fun _ => .fault _ _) fun m accepts => ?_
    dsimp only
    split
    · exact .entered _ _ _
    · split
      · exact .silent _
      · exact .fault _ _

/-- Every operation has an outcome of one of the forms. -/
theorem execute_form (p : Program) (m : Machine) (op : Opcode) : Step.Form op (m.execute p op) := by
  unfold execute
  cases op with
  | push => exact withOperand_elim (.fault _ _) fun _ _ => .silent _
  | pop | dup => exact withTop_elim (.fault _ _) fun _ _ => .silent _
  | add | sub | mul | exp => exact binary_form _
  | div => exact division_form (.inl rfl) _
  | mod => exact division_form (.inr rfl) _
  | halt => exact .halted _ _
  | store => exact withOperand_elim (.fault _ _) fun _ _ => withTop_elim (.fault _ _) fun _ _ => .silent _
  | load =>
    refine withOperand_elim (.fault _ _) fun m id => ?_
    split
    · exact .silent _
    · exact .fault _ _
  | call =>
    refine withOperand_elim (.fault _ _) fun m id => ?_
    split
    · exact .silent _
    · exact .fault _ _
  | ret =>
    show Step.Form .ret m.ret
    unfold ret
    split
    · exact .silent _
    · exact .returned _ _
  | func =>
    refine withOperand_elim (.fault _ _) fun m id => ?_
    split
    · exact .registered _ _ _
    · exact .fault _ _
  | printNum | printChar | printlnNum | printlnChar => exact print_form _ (by decide)
  | openTry =>
    show Step.Form .openTry (m.openTry p)
    unfold openTry
    split
    · exact .silent _
    · exact .fault _ _
  | clause => exact clause_form
  | endTry => exact .silent _

end Forms

end Machine
end PixelCode
