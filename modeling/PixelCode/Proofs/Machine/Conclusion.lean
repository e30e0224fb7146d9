import PixelCode.Proofs.Machine.Path

/-! How a run comes to its end, whatever its sink takes: a path leads to the last head of the loop, and
what happens there is one of four things. -/
namespace PixelCode.Machine

inductive Concludes (p : Program) (m : Machine) (out : Sink) (trace : Trace) : Run → Prop where
  | offEnd (gone : p.byte? m.pc = none) : Concludes p m out trace (m.finish out trace)
  | stopped {b : UInt8} {m' : Machine} {events : List Event} (fetch : p.byte? m.pc = some b)
      (stops : m.dispatch p b = .stop m' events) :
      Concludes p m out trace (m'.finish out (trace.record events))
  | faulted {b : UInt8} {m' : Machine} {events : List Event} {cause : Fault.Cause}
      (fetch : p.byte? m.pc = some b) (fails : m.dispatch p b = .fault m' events cause) :
      Concludes p m out trace
        ⟨m', out, trace.record (events ++ [.faulted cause (m'.pc - 1)]),
          .faulted ⟨cause, b, m'.pc - 1, m'.stack.toList⟩⟩
  | refused {b : UInt8} {m' : Machine} {events : List Event} {text reason : String} {out' : Sink}
      (fetch : p.byte? m.pc = some b) (next : m.dispatch p b = .next m' events text)
      (refuses : out.writeText text = (out', some reason)) :
      Concludes p m out trace ⟨m', out', trace.record events, .refused reason⟩

variable {p : Program} {m : Machine} {out : Sink} {trace : Trace} {fuel : Nat} {r : Run}

/-- A run that ends has taken a path whose text its sink took, and has come to its conclusion there. -/
theorem concludes_of_runFrom (h : runFrom p fuel m out trace = some r) :
    ∃ n events text m₁ out₁, Path p n m events text m₁ ∧ out.writeText text = (out₁, none) ∧
      Concludes p m₁ out₁ (trace.record events) r := by
  induction fuel generalizing m out trace with
  | zero => cases h
  | succ fuel ih =>
    have here (hend : Concludes p m out trace r) :
        ∃ n events text m₁ out₁, Path p n m events text m₁ ∧ out.writeText text = (out₁, none) ∧
          Concludes p m₁ out₁ (trace.record events) r := by
      have hstart : trace.record [] = trace := by simp [Trace.record]
      exact ⟨0, [], "", m, out, .refl m, out.writeText_empty, hstart.symm ▸ hend⟩
    rw [runFrom] at h
    split at h
    next hgone =>
      cases h
      exact here (.offEnd hgone)
    next b hb =>
      split at h
      next m₁ events text hnext =>
        split at h
        next out₁ hwrite =>
          obtain ⟨n, rest, more, m₂, out₂, hpath, hmore, hend⟩ := ih h
          refine ⟨n + 1, _, _, m₂, out₂, .step hb hnext hpath, ?_, ?_⟩
          · rw [Sink.writeText_append, hwrite]
            exact hmore
          · rw [← Trace.record_append]
            exact hend
        next out₁ reason hwrite =>
          cases h
          exact here (.refused hb hnext hwrite)
      next m₁ events hstop =>
        cases h
        exact here (.stopped hb hstop)
      next m₁ events cause hfault =>
        cases h
        exact here (.faulted hb hfault)

/-- The instruction that a run failed at, the path to it, and what the fault says of the state it left. -/
theorem exists_failing_of_runFrom {f : Fault} (h : runFrom p fuel m out trace = some r)
    (hfault : r.ending = .faulted f) :
    ∃ n events text m₁ last, Path p n m events text m₁ ∧ p.byte? m₁.pc = some f.opcode ∧
      m₁.dispatch p f.opcode = .fault r.machine last f.cause ∧ f.pc = r.machine.pc - 1 ∧
      f.stack = r.machine.stack.toList := by
  obtain ⟨n, events, text, m₁, out₁, hpath, -, hend⟩ := concludes_of_runFrom h
  cases hend with
  | faulted fetch fails =>
    cases hfault
    exact ⟨n, events, text, m₁, _, hpath, fetch, fails, rfl, rfl⟩
  | refused => cases hfault
  | offEnd gone =>
    unfold finish at hfault
    split at hfault <;> cases hfault
  | stopped fetch stops =>
    unfold finish at hfault
    split at hfault <;> cases hfault

end PixelCode.Machine
