import PixelCode.Proofs.Machine.Path

/-! Open scopes and calls in progress. A scope belongs to the calls that were in progress at its start, and
stays within them for as long as no return leaves it open behind itself. -/
namespace PixelCode

/-- Some scopes, innermost first, were started within at most `bound` calls, and each one within those of
the scopes inside it. -/
def Scope.Nested : Nat → List Scope → Prop
  | _, [] => True
  | bound, s :: outer => s.calls ≤ bound ∧ Nested s.calls outer

namespace Scope.Nested

variable {bound bound' : Nat} {scopes : List Scope}

private theorem weaken (h : Nested bound scopes) (hle : bound ≤ bound') : Nested bound' scopes := by
  cases scopes with
  | nil => trivial
  | cons s outer => exact ⟨Nat.le_trans h.1 hle, h.2⟩

theorem le (h : Nested bound scopes) : ∀ s ∈ scopes, s.calls ≤ bound := by
  induction scopes generalizing bound with
  | nil =>
    intro s hs
    cases hs
  | cons first outer ih =>
    intro s hs
    rcases List.mem_cons.1 hs with rfl | hs
    · exact h.1
    · exact Nat.le_trans (ih h.2 s hs) h.1

/-- One call less is enough if no scope needs them all. -/
theorem tighten (h : Nested (bound + 1) scopes) (hfree : ∀ s ∈ scopes, s.calls ≠ bound + 1) :
    Nested bound scopes := by
  cases scopes with
  | nil => trivial
  | cons s outer =>
    have hne := hfree s List.mem_cons_self
    have hle := h.1
    exact ⟨by omega, h.2⟩

theorem tail (h : Nested bound scopes) : Nested bound scopes.tail := by
  cases scopes with
  | nil => trivial
  | cons s outer => exact h.2.weaken h.1

/-- The scope that takes an exception still stands within the calls, and the ones around it within its own. -/
theorem of_takes (h : Nested bound scopes) {p : Program} {e : Exception} {scope : Scope}
    {outer : List Scope} {target : Nat} (taken : Machine.Takes p e scope outer target scopes) :
    scope.calls ≤ bound ∧ Nested scope.calls outer := by
  induction taken generalizing bound with
  | here => exact h
  | further _ _ ih =>
    obtain ⟨hle, houter⟩ := ih h.2
    exact ⟨Nat.le_trans hle h.1, houter⟩

end Scope.Nested

namespace Machine

/-- The next instruction returns from a call, and a scope that was started in this call is still open. -/
def Abandons (p : Program) (m : Machine) : Prop :=
  p.opcode? m.pc = some .ret ∧ m.calls ≠ #[] ∧ ∃ s ∈ m.scopes, s.calls = m.calls.size

variable {p : Program} {m m' : Machine}

/-- Every move keeps the scopes within the calls, or is a return that leaves one of them open. -/
theorem Move.nested (hmove : Move p m m') (h : Scope.Nested m.calls.size m.scopes)
    (hkeeps : ¬ m.Abandons p) : Scope.Nested m'.calls.size m'.scopes := by
  cases hmove with
  | plain => exact h
  | store => exact h
  | define => exact h
  | call id entry =>
    rw [Array.size_push]
    exact h.weaken (Nat.le_succ _)
  | ret address op back =>
    have hcalls : m.calls ≠ #[] := by
      intro hempty
      rw [hempty] at back
      cases back
    have hsize : m.calls.size = m.calls.pop.size + 1 := by
      have hpos : 0 < m.calls.size := Array.size_pos_iff.2 hcalls
      rw [Array.size_pop]
      omega
    rw [hsize] at h
    apply h.tighten
    intro s hs hcall
    exact hkeeps ⟨op, hcalls, s, hs, hcall.trans hsize.symm⟩
  | openTry => exact ⟨Nat.le_refl _, h⟩
  | enter scope outer accepts op inside open_ =>
    rw [open_] at h
    exact h
  | pass scope outer accepts q op inside open_ =>
    rw [open_] at h
    exact h
  | endTry => exact h.tail
  | raise scope outer target op taken =>
    obtain ⟨hle, houter⟩ := h.of_takes taken
    refine ⟨?_, houter⟩
    rw [Array.size_shrink]
    exact Nat.le_min.2 ⟨Nat.le_refl _, hle⟩

/-- A return that leaves a scope open leaves it outside the calls in progress. -/
theorem Abandons.advance (h : m.Abandons p) :
    ∃ m', m.advance p = some m' ∧ ∃ s ∈ m'.scopes, m'.calls.size < s.calls := by
  obtain ⟨hop, hcalls, s, hs, hsize⟩ := h
  obtain ⟨address, haddress⟩ : ∃ address, m.calls.back? = some address := by
    cases hback : m.calls.back? with
    | none => exact absurd (by simpa using hback) hcalls
    | some address => exact ⟨address, rfl⟩
  have hret : { m with pc := m.pc + 1 }.ret =
      .silent { m with pc := address, calls := m.calls.pop } := by
    simp only [ret, haddress]
  have hdispatch : m.dispatch p Opcode.ret.byte =
      ({ m with pc := m.pc + 1 }.ret).after (.dispatched m.pc .ret m.stack.size) := rfl
  rw [hret] at hdispatch
  refine ⟨_, advance_of_next (Program.byte?_of_opcode? hop) hdispatch, s, hs, ?_⟩
  have hpos : 0 < m.calls.size := Array.size_pos_iff.2 hcalls
  rw [Array.size_pop]
  omega

/-- The open scopes stay within the calls in progress for as long as no instruction returns from a call and
leaves a scope of that call open. Such a return breaks this at once. -/
theorem scopes_within_calls_iff (p : Program) (n : Nat) :
    (∀ k ≤ n, ∀ m, initial.later p k = some m → ∀ s ∈ m.scopes, s.calls ≤ m.calls.size) ↔
      ∀ k < n, ∀ m, initial.later p k = some m → ¬ m.Abandons p := by
  constructor
  · intro hwithin k hk m hm habandons
    obtain ⟨m', hadvance, s, hs, houtlives⟩ := habandons.advance
    have hm' : initial.later p (k + 1) = some m' := by rw [later, hm]; exact hadvance
    exact absurd (hwithin (k + 1) hk m' hm' s hs) (Nat.not_le.2 houtlives)
  · intro hkeeps
    have hnested : ∀ k ≤ n, ∀ m, initial.later p k = some m →
        Scope.Nested m.calls.size m.scopes := by
      intro k
      induction k with
      | zero =>
        intro _ m hm
        cases hm
        trivial
      | succ k ih =>
        intro hk m' hm'
        obtain ⟨m, hm, hadvance⟩ := Option.bind_eq_some_iff.1 hm'
        obtain ⟨b, events, text, fetch, next⟩ := advance_eq_some hadvance
        exact (dispatch_move fetch next).nested (ih (Nat.le_of_lt hk) m hm) (hkeeps k hk m hm)
    intro k hk m hm
    exact (hnested k hk m hm).le

def leftOpen : Program :=
  .ofList [0x52, 0, 0x70, 0x51, 0x52, 1, 0x71, 0, 0x72, 0x51, 0x50, 0, 0x32]

/-- Behind the call of such a function no call is in progress, and the scope is still open. -/
theorem scope_outlives_call :
    ∃ m, Reachable leftOpen m ∧ m.pc = 12 ∧ ∃ s ∈ m.scopes, m.calls.size < s.calls := by
  have hlater : (initial.later leftOpen 5).any (fun m =>
      decide (m.pc = 12 ∧ ∃ s ∈ m.scopes, m.calls.size < s.calls)) = true := by
    decide +kernel
  obtain ⟨m, hm, hopen⟩ := (Option.any_eq_true _ _).1 hlater
  exact ⟨m, reachable_of_later hm, of_decide_eq_true hopen⟩

end Machine
end PixelCode
