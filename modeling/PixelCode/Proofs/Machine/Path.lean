import PixelCode.Machine.Run
import PixelCode.Proofs.Machine.Move
import PixelCode.Proofs.Machine.Storage

/-! Sequences of instructions, and the part of a run that they make up. -/
namespace PixelCode

theorem Trace.record_append (t : Trace) (a b : List Event) :
    (t.record a).record b = t.record (a ++ b) := by
  simp only [record, List.filter_append]
  congr 1
  exact Array.toList_inj.1 (by simp)

namespace Machine

/-- Control goes from one head of the loop to another in `n` instructions. They report `events` and
print `text`. -/
inductive Path (p : Program) : Nat → Machine → List Event → String → Machine → Prop where
  | refl (m : Machine) : Path p 0 m [] "" m
  | step {n : Nat} {m m₁ m₂ : Machine} {b : UInt8} {events rest : List Event}
      {text more : String} (fetch : p.byte? m.pc = some b)
      (next : m.dispatch p b = .next m₁ events text) (on : Path p n m₁ rest more m₂) :
      Path p (n + 1) m (events ++ rest) (text ++ more) m₂

/-- A state that a run of the program from its start comes to at the head of the loop. -/
def Reachable (p : Program) (m : Machine) : Prop :=
  ∃ n events text, Path p n initial events text m

variable {p : Program} {m m₁ m₂ : Machine} {events rest : List Event} {text more : String} {n k : Nat}

namespace Path

theorem one {b : UInt8} (fetch : p.byte? m.pc = some b)
    (next : m.dispatch p b = .next m₁ events text) : Path p 1 m events text m₁ := by
  simpa using Path.step fetch next (.refl m₁)

theorem trans (h₁ : Path p n m events text m₁) (h₂ : Path p k m₁ rest more m₂) :
    Path p (n + k) m (events ++ rest) (text ++ more) m₂ := by
  induction h₁ with
  | refl => simpa using h₂
  | step fetch next _ ih =>
    have hrest := Path.step fetch next (ih h₂)
    simpa [Nat.add_right_comm, List.append_assoc, String.append_assoc] using hrest

/-- What every move keeps, a path keeps. -/
theorem invariant {P : Machine → Prop} (hstep : ∀ {m m'}, Move p m m' → P m → P m')
    (h : Path p n m events text m₁) (hm : P m) : P m₁ := by
  induction h with
  | refl => exact hm
  | step fetch next _ ih => exact ih (hstep (dispatch_move fetch next) hm)

/-- On a sink without limit a run passes through every path from its state. -/
theorem runFrom_add (h : Path p n m events text m₁) {out : Sink} (hout : out.room = none)
    (fuel : Nat) (trace : Trace) :
    runFrom p (n + fuel) m out trace = runFrom p fuel m₁ (out.append text) (trace.record events) := by
  induction h generalizing out trace with
  | refl m => simp [Sink.append, Trace.record]
  | @step n m m₁ m₂ b events rest text more fetch next on ih =>
    rw [Nat.add_right_comm, runFrom, fetch]
    simp only [next, Sink.writeText_of_room_none hout]
    rw [ih (show (out.append text).room = none from hout), Sink.append_append,
      Trace.record_append]

/-- A run that takes less fuel than a path from its state has no result. -/
theorem runFrom_eq_none (h : Path p n m events text m₁) {fuel : Nat} (hfuel : fuel ≤ n)
    {out : Sink} (hout : out.room = none) (trace : Trace) : runFrom p fuel m out trace = none := by
  induction h generalizing fuel out trace with
  | refl m =>
    obtain rfl : fuel = 0 := by omega
    rfl
  | @step n m m₁ m₂ b events rest text more fetch next on ih =>
    cases fuel with
    | zero => rfl
    | succ fuel =>
      rw [runFrom, fetch]
      simp only [next, Sink.writeText_of_room_none hout]
      exact ih (Nat.le_of_succ_le_succ hfuel) (show (out.append text).room = none from hout) _

/-- A run that ends, on a sink without limit, ends from every state on its way with less fuel. -/
theorem runFrom_eq_some (h : Path p n m events text m₁) {fuel : Nat} {out : Sink}
    (hout : out.room = none) {trace : Trace} {r : Run}
    (hrun : runFrom p fuel m out trace = some r) :
    ∃ k, fuel = n + k ∧ runFrom p k m₁ (out.append text) (trace.record events) = some r := by
  obtain hle | ⟨k, rfl⟩ : fuel ≤ n ∨ ∃ k, fuel = n + k := by
    by_cases hle : fuel ≤ n
    · exact .inl hle
    · exact .inr ⟨fuel - n, by omega⟩
  · rw [h.runFrom_eq_none hle hout] at hrun
    cases hrun
  · exact ⟨k, rfl, by rw [← h.runFrom_add hout, hrun]⟩

/-- A path to a state in which the next instruction ends the run determines the result. -/
theorem runFrom_result (h : Path p n m events text m₁) {out : Sink} (hout : out.room = none)
    {trace : Trace} {r : Run}
    (hlast : ∀ fuel, runFrom p (fuel + 1) m₁ (out.append text) (trace.record events) = some r) :
    (∃ fuel, runFrom p fuel m out trace = some r) ∧
      ∀ {fuel r'}, runFrom p fuel m out trace = some r' → r' = r := by
  refine ⟨⟨n + 1, by rw [h.runFrom_add hout, hlast]⟩, fun {fuel r'} hrun => ?_⟩
  obtain ⟨k, -, hrest⟩ := h.runFrom_eq_some hout hrun
  cases k with
  | zero => cases hrest
  | succ k =>
    rw [hlast] at hrest
    exact (Option.some.inj hrest).symm

end Path

def advance (p : Program) (m : Machine) : Option Machine :=
  match p.byte? m.pc with
  | none => none
  | some b =>
    match m.dispatch p b with
    | .next m' _ _ => some m'
    | _ => none

def later (p : Program) (m : Machine) : Nat → Option Machine
  | 0 => some m
  | n + 1 => (later p m n).bind (advance p)

theorem advance_eq_some (h : m.advance p = some m₁) :
    ∃ b events text, p.byte? m.pc = some b ∧ m.dispatch p b = .next m₁ events text := by
  unfold advance at h
  split at h
  next => cases h
  next b hb =>
    split at h
    next m' events text hnext =>
      cases h
      exact ⟨b, events, text, hb, hnext⟩
    next => cases h

theorem advance_of_next {b : UInt8} (fetch : p.byte? m.pc = some b)
    (next : m.dispatch p b = .next m₁ events text) : m.advance p = some m₁ := by
  simp only [advance, fetch, next]

theorem move_of_advance (h : m.advance p = some m₁) : Move p m m₁ := by
  obtain ⟨b, events, text, fetch, next⟩ := advance_eq_some h
  exact dispatch_move fetch next

private theorem later_of_advance (h : m.advance p = some m₁) :
    m.later p (n + 1) = m₁.later p n := by
  induction n with
  | zero => exact h
  | succ n ih => rw [later, ih, later]

theorem later_eq_some_iff : m.later p n = some m₁ ↔ ∃ events text, Path p n m events text m₁ := by
  constructor
  · intro h
    induction n generalizing m₁ with
    | zero =>
      cases h
      exact ⟨[], "", .refl m⟩
    | succ n ih =>
      obtain ⟨m', hm', hlast⟩ := Option.bind_eq_some_iff.1 h
      obtain ⟨events, text, hpath⟩ := ih hm'
      obtain ⟨b, rest, more, fetch, next⟩ := advance_eq_some hlast
      exact ⟨_, _, hpath.trans (.one fetch next)⟩
  · rintro ⟨events, text, hpath⟩
    induction hpath with
    | refl => rfl
    | step fetch next _ ih => rw [later_of_advance (advance_of_next fetch next), ih]

theorem reachable_of_later (h : initial.later p n = some m) : Reachable p m := by
  obtain ⟨events, text, hpath⟩ := later_eq_some_iff.1 h
  exact ⟨n, events, text, hpath⟩

/-- What holds at the start and is kept by every move holds in every reachable state. -/
theorem Reachable.invariant {P : Machine → Prop} (h : Reachable p m) (hinit : P initial)
    (hstep : ∀ {m m'}, Move p m m' → P m → P m') : P m := by
  obtain ⟨n, events, text, hpath⟩ := h
  exact hpath.invariant hstep hinit

/-- A run ends if every move lowers a measure that the fuel exceeds. -/
theorem runFrom_eq_some_of_measure {P : Machine → Prop} {measure : Machine → Nat}
    (hstep : ∀ {m m'}, Move p m m' → P m → P m' ∧ measure m' < measure m) (hm : P m) {fuel : Nat}
    (hfuel : measure m < fuel) (out : Sink) (trace : Trace) :
    ∃ r, runFrom p fuel m out trace = some r := by
  induction fuel generalizing m out trace with
  | zero => exact absurd hfuel (Nat.not_lt_zero _)
  | succ fuel ih =>
    rw [runFrom]
    split
    next => exact ⟨_, rfl⟩
    next b hb =>
      split
      next m' events text hnext =>
        obtain ⟨hm', hlt⟩ := hstep (dispatch_move hb hnext) hm
        split
        next => exact ih hm' (by omega) _ _
        next => exact ⟨_, rfl⟩
      next => exact ⟨_, rfl⟩
      next => exact ⟨_, rfl⟩

end Machine
end PixelCode
