import PixelCode.Proofs.Machine.Refusal

/-! Runs on an arbitrary sink. What is reported of a run depends on what the program does by itself, and on whether the
sink takes what it prints. -/
namespace PixelCode

def Sink.Takes (s : Sink) (text : String) : Prop := (s.writeText text).2 = none

namespace Sink

variable {s : Sink} {text more : String}

theorem Takes.received_writeText (h : s.Takes text) :
    (s.writeText text).1.received = s.received ++ text.toUTF8.data := by
  unfold Takes writeText write at h
  unfold writeText write
  split at h
  · rfl
  · split at h
    next hfits => rw [if_pos hfits]
    · cases h

theorem takes_append : s.Takes (text ++ more) ↔ s.Takes text ∧ (s.writeText text).1.Takes more := by
  rw [Takes, Takes, Takes, writeText_append]
  cases s.writeText text with
  | mk s' refusal => cases refusal <;> simp

/-- A sink that has refused bytes is full. -/
private theorem write_of_refused {bytes : Array UInt8} {reason : String}
    (h : (s.write bytes).2 = some reason) (others : Array UInt8) :
    (s.write bytes).1.write others = ((s.write bytes).1, if others.size = 0 then none else some reason) := by
  cases hroom : s.room with
  | none => simp [write, hroom] at h
  | some room =>
    by_cases hfits : bytes.size ≤ room
    · simp [write, hroom, hfits] at h
    · have hreason : s.refusal = reason := by simpa [write, hroom, hfits] using h
      simp only [write, hroom, if_neg hfits, hreason, Nat.le_zero]
      split <;> simp_all

theorem writeText_of_refused {reason : String} (h : (s.writeText text).2 = some reason) (more : String) :
    (s.writeText text).1.writeText more = ((s.writeText text).1, if more = "" then none else some reason) := by
  have hempty : more.toUTF8.data.size = 0 ↔ more = "" := String.utf8ByteSize_eq_zero_iff
  have hfull := write_of_refused h more.toUTF8.data
  simp only [hempty] at hfull
  exact hfull

/-- What arrives does not depend on whether texts are written one by one. -/
theorem writeText_writeText (s : Sink) (text more : String) :
    ((s.writeText text).1.writeText more).1 = (s.writeText (text ++ more)).1 := by
  rw [writeText_append]
  cases h : (s.writeText text).2 with
  | none => rw [show s.writeText text = (_, none) from Prod.ext rfl h]
  | some reason =>
    rw [writeText_of_refused h, show s.writeText text = (_, some reason) from Prod.ext rfl h]

end Sink

private theorem Sink.flushFailure_writeText (s : Sink) (text : String) :
    (s.writeText text).1.flushFailure = s.flushFailure := by
  unfold writeText write
  split
  · rfl
  · split <;> rfl

namespace Machine

def Prints (p : Program) (text : String) : Prop :=
  ∃ n events m, Path p n initial events text m

variable {p : Program} {m : Machine} {out out' : Sink} {trace : Trace} {fuel : Nat} {r : Run} {text : String}

/-- More fuel does not change a run that ends. -/
theorem runFrom_add_fuel (h : runFrom p fuel m out trace = some r) (more : Nat) :
    runFrom p (more + fuel) m out trace = some r := by
  induction fuel generalizing m out trace with
  | zero => cases h
  | succ fuel ih =>
    rw [← Nat.add_assoc, runFrom]
    rw [runFrom] at h
    split at h
    next hgone => exact h
    next b hb =>
      split at h
      next m₁ events text hnext =>
        split at h
        next out₁ hwrite => exact ih h
        next => exact h
      next => exact h
      next => exact h

/-- A run that ends does so whatever is recorded of it. -/
theorem exists_run (h : ∃ r, initial.run p fuel out trace = some r) (trace' : Trace) :
    ∃ r, initial.run p fuel out trace' = some r := by
  obtain ⟨r, hrun⟩ := h
  have heffect := runFrom_effect p fuel initial.reset out (trace.record [.started p.size])
    (trace'.record [.started p.size])
  obtain ⟨r', hrun', -⟩ := Option.map_eq_some_iff.1 (heffect.symm.trans (congrArg (Option.map Run.effect) hrun))
  exact ⟨r', hrun'⟩

/-- A run that ends has done what the program does up to its end, or has printed what its sink does not take. -/
theorem endsBy_or_prints_of_run (hrun : initial.run p fuel out trace = some r) :
    (∃ exit m text, EndsBy p exit m text ∧ out.Takes text) ∨ ∃ text, Prints p text ∧ ¬ out.Takes text := by
  obtain ⟨n, events, text, m₁, out₁, hpath, hwrite, hend⟩ := concludes_of_runFrom hrun
  have htakes : out.Takes text := congrArg Prod.snd hwrite
  cases hend with
  | offEnd gone => exact .inl ⟨_, _, text, ⟨n, events, m₁, hpath, .offEnd gone⟩, htakes⟩
  | stopped fetch stops =>
    obtain ⟨exit, hlast, -⟩ := last_of_stop fetch stops
    exact .inl ⟨exit, _, text, ⟨n, events, m₁, hpath, hlast⟩, htakes⟩
  | faulted fetch fails => exact .inl ⟨_, _, text, ⟨n, events, m₁, hpath, .faulted fetch fails⟩, htakes⟩
  | @refused _ m₂ rest more reason out₂ fetch next refuses =>
    refine .inr ⟨text ++ more, ⟨_, _, _, hpath.trans (.one fetch next)⟩, ?_⟩
    rw [Sink.Takes, Sink.writeText_append, hwrite]
    dsimp only
    rw [refuses]
    nofun

/-- A run whose text is taken is reported as the program ends, if the text can be flushed. -/
theorem flushed_of_endsBy {exit : Exit} (hends : EndsBy p exit m text) (htakes : out.Takes text)
    (hrun : initial.run p fuel out trace = some r) :
    r.flushed =
      match out.flushFailure with
      | some reason => .refused reason
      | none => exit.ending := by
  obtain ⟨n, events, m₁, hpath, hlast⟩ := hends
  obtain ⟨out', hwrite⟩ : ∃ out', out.writeText text = (out', none) := ⟨_, Prod.ext rfl htakes⟩
  have hflush : out'.flushFailure = out.flushFailure := by
    rw [← Sink.flushFailure_writeText out text, hwrite]
  obtain ⟨trace', hresult⟩ := runFrom_of_last hlast out' ((trace.record [.started p.size]).record events)
  have hlong := runFrom_add_fuel (runFrom_add_fuel hrun 1) n
  rw [reset, hpath.runFrom_of_taken hwrite, Nat.add_comm, hresult] at hlong
  cases hlong
  rw [← hflush]
  cases exit <;> cases h : out'.flushFailure <;> simp only [Run.flushed, Exit.ending, Ending.flushed, h]

/-- A run whose text is not taken is reported as refused. -/
theorem flushed_of_prints (hprints : Prints p text) (hrefuses : ¬ out.Takes text)
    (hrun : initial.run p fuel out trace = some r) : ∃ reason, r.flushed = .refused reason := by
  obtain ⟨n, events, m₁, hpath⟩ := hprints
  obtain ⟨reason, hreason⟩ := Option.ne_none_iff_exists'.1 hrefuses
  have hwrite : out.writeText text = (_, some reason) := Prod.ext rfl hreason
  obtain ⟨m₂, trace₂, hrefused⟩ := hpath.runFrom_of_refused hwrite (trace.record [.started p.size])
  have hlong := runFrom_add_fuel hrun n
  rw [reset, hrefused] at hlong
  cases hlong
  exact ⟨reason, rfl⟩

/-- A fault is reported exactly if the program ends in one, and its text is taken and can be flushed. -/
theorem flushed_eq_faulted_iff (hrun : initial.run p fuel out trace = some r) :
    (∃ f, r.flushed = .faulted f) ↔
      (∃ f m text, EndsBy p (.faulted f) m text ∧ out.Takes text) ∧ out.flushFailure = none := by
  constructor
  · rintro ⟨f, hf⟩
    rcases endsBy_or_prints_of_run hrun with ⟨exit, m, text, hends, htakes⟩ | ⟨text, hprints, hrefuses⟩
    · rw [flushed_of_endsBy hends htakes hrun] at hf
      cases hflush : out.flushFailure with
      | some reason =>
        rw [hflush] at hf
        cases hf
      | none =>
        rw [hflush] at hf
        cases exit with
        | faulted f' => exact ⟨⟨f', m, text, hends, htakes⟩, rfl⟩
        | _ => cases hf
    · obtain ⟨reason, hreason⟩ := flushed_of_prints hprints hrefuses hrun
      rw [hreason] at hf
      cases hf
  · rintro ⟨⟨f, m, text, hends, htakes⟩, hflush⟩
    rw [flushed_of_endsBy hends htakes hrun, hflush]
    exact ⟨f, rfl⟩

/-- A run is reported as refused exactly if the program prints what is not taken, or the text cannot be flushed. -/
theorem flushed_eq_refused_iff (hrun : initial.run p fuel out trace = some r) :
    (∃ reason, r.flushed = .refused reason) ↔
      (∃ text, Prints p text ∧ ¬ out.Takes text) ∨ out.flushFailure ≠ none := by
  constructor
  · rintro ⟨reason, hreason⟩
    rcases endsBy_or_prints_of_run hrun with ⟨exit, m, text, hends, htakes⟩ | hprints
    · rw [flushed_of_endsBy hends htakes hrun] at hreason
      refine .inr fun hflush => ?_
      rw [hflush] at hreason
      cases exit <;> cases hreason
    · exact .inl hprints
  · rintro (⟨text, hprints, hrefuses⟩ | hflush)
    · exact flushed_of_prints hprints hrefuses hrun
    · rcases endsBy_or_prints_of_run hrun with ⟨exit, m, text, hends, htakes⟩ | ⟨text, hprints, hrefuses⟩
      · obtain ⟨reason, hreason⟩ := Option.ne_none_iff_exists'.1 hflush
        rw [flushed_of_endsBy hends htakes hrun, hreason]
        exact ⟨reason, rfl⟩
      · exact flushed_of_prints hprints hrefuses hrun

end Machine
end PixelCode
