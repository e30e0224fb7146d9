import PixelCode.Proofs.Program.Walk

/-! The forward scans as one sweep under different rules, and the bytes that every sweep passes over. -/
namespace PixelCode.Program

/-- What a scan makes of an operation: it ends there, with or without a result, or goes on with some
inner scopes open. -/
inductive Verdict where
  | found
  | closed
  | on (depth : Nat)

/-- The first position at or after `pc` whose operation a rule calls found. Unknown bytes are passed
over whatever the rule says. -/
def sweep (p : Program) (rule : Opcode → Nat → Verdict) (depth pc : Nat) : Option Nat :=
  if pc < p.size then
    match p.opcode? pc with
    | none => p.sweep rule depth (p.next pc)
    | some op =>
      match rule op depth with
      | .found => some pc
      | .closed => none
      | .on depth => p.sweep rule depth (p.next pc)
  else none
termination_by p.size - pc
decreasing_by
  all_goals
    have := p.lt_next pc
    omega

def returnRule : Opcode → Nat → Verdict
  | .ret, _ => .found
  | _, depth => .on depth

def clauseRule : Opcode → Nat → Verdict
  | .openTry, depth => .on (depth + 1)
  | .endTry, 0 => .closed
  | .endTry, depth + 1 => .on depth
  | .clause, 0 => .found
  | _, depth => .on depth

def clauseEndRule : Opcode → Nat → Verdict
  | .openTry, depth => .on (depth + 1)
  | .clause, 0 => .found
  | .endTry, 0 => .found
  | .endTry, depth + 1 => .on depth
  | _, depth => .on depth

variable {p : Program} {rule : Opcode → Nat → Verdict} {depth pc : Nat}

theorem sweep_of_unknown (hin : pc < p.size) (hop : p.opcode? pc = none) :
    p.sweep rule depth pc = p.sweep rule depth (p.next pc) := by
  rw [sweep, if_pos hin, hop]

theorem sweep_of_opcode? {op : Opcode} (hop : p.opcode? pc = some op) :
    p.sweep rule depth pc =
      match rule op depth with
      | .found => some pc
      | .closed => none
      | .on depth => p.sweep rule depth (p.next pc) := by
  rw [sweep, if_pos (lt_size_of_opcode? hop), hop]

theorem sweep_of_size_le (hout : p.size ≤ pc) : p.sweep rule depth pc = none := by
  rw [sweep, if_neg (Nat.not_lt.2 hout)]

/-- A scan that decides each operation as a rule does is the sweep under that rule. -/
theorem eq_sweep (scan : Nat → Nat → Option Nat)
    (hscan : ∀ depth pc, scan depth pc =
      if pc < p.size then
        match p.opcode? pc with
        | none => scan depth (p.next pc)
        | some op =>
          match rule op depth with
          | .found => some pc
          | .closed => none
          | .on depth => scan depth (p.next pc)
      else none)
    (depth pc : Nat) : scan depth pc = p.sweep rule depth pc := by
  fun_induction sweep p rule depth pc with
  | case1 depth pc hin hop ih => rw [hscan, if_pos hin, hop]; exact ih
  | case2 depth pc hin op hop hfound => rw [hscan, if_pos hin, hop]; simp only [hfound]
  | case3 depth pc hin op hop hclosed => rw [hscan, if_pos hin, hop]; simp only [hclosed]
  | case4 depth pc hin op hop depth' hon ih => rw [hscan, if_pos hin, hop]; simp only [hon, ih]
  | case5 depth pc hout => rw [hscan, if_neg hout]

theorem firstReturn?_eq_sweep (p : Program) (pc : Nat) :
    p.firstReturn? pc = p.sweep returnRule 0 pc := by
  refine eq_sweep (fun _ pc => p.firstReturn? pc) (fun depth pc => ?_) 0 pc
  rw [firstReturn?.eq_def]
  cases p.opcode? pc with
  | none => rfl
  | some op => cases op <;> rfl

-- The clause scans decide by operation and depth at once, and so the proofs split on both.
theorem clauseFrom?_eq_sweep (p : Program) (depth pc : Nat) :
    p.clauseFrom? depth pc = p.sweep clauseRule depth pc := by
  refine eq_sweep p.clauseFrom? (fun depth pc => ?_) depth pc
  rw [clauseFrom?.eq_def]
  cases p.opcode? pc with
  | none => rfl
  | some op => cases op <;> cases depth <;> rfl

theorem clauseEndFrom?_eq_sweep (p : Program) (depth pc : Nat) :
    p.clauseEndFrom? depth pc = p.sweep clauseEndRule depth pc := by
  refine eq_sweep p.clauseEndFrom? (fun depth pc => ?_) depth pc
  rw [clauseEndFrom?.eq_def]
  cases p.opcode? pc with
  | none => rfl
  | some op => cases op <;> cases depth <;> rfl

inductive Slides (p : Program) : Nat → Nat → Prop where
  | refl (pc : Nat) : Slides p pc pc
  | skip {pc target : Nat} (inside : pc < p.size) (unknown : p.opcode? pc = none)
      (rest : Slides p (pc + 1) target) : Slides p pc target

def Silent (p : Program) (pc : Nat) : Prop :=
  ∃ target, p.Slides pc target ∧ p.size ≤ target

theorem Slides.sweep_eq {target : Nat} (h : p.Slides pc target) :
    p.sweep rule depth pc = p.sweep rule depth target := by
  induction h with
  | refl => rfl
  | skip inside unknown _ ih => rw [sweep_of_unknown inside unknown, next_of_unknown unknown, ih]

theorem Silent.sweep_eq_none (h : p.Silent pc) : p.sweep rule depth pc = none := by
  obtain ⟨target, hslides, hout⟩ := h
  rw [hslides.sweep_eq, sweep_of_size_le hout]

theorem Silent.of_size_le (h : p.size ≤ pc) : p.Silent pc := ⟨pc, .refl pc, h⟩

theorem Slides.silent {target : Nat} (h : p.Slides pc target) (hsilent : p.Silent target) :
    p.Silent pc := by
  induction h with
  | refl => exact hsilent
  | skip inside unknown _ ih =>
    obtain ⟨last, hslides, hout⟩ := ih hsilent
    exact ⟨last, .skip inside unknown hslides, hout⟩

theorem silent_of_unknown (p : Program) (pc : Nat) (h : ∀ q, pc ≤ q → p.opcode? q = none) :
    p.Silent pc := by
  by_cases hin : pc < p.size
  · have hrest := silent_of_unknown p (pc + 1) fun q hq => h q (by omega)
    exact (Slides.skip hin (h pc (Nat.le_refl pc)) (.refl _)).silent hrest
  · exact .of_size_le (Nat.not_lt.1 hin)
termination_by p.size - pc

end PixelCode.Program
