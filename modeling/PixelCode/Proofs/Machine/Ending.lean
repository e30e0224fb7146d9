import PixelCode.Proofs.Machine.Conclusion
import PixelCode.Proofs.Machine.Form

/-! How runs end on a sink that takes everything: a path leads to an instruction that is the last one, and
there are four kinds of those. -/
namespace PixelCode

inductive Exit where
  | offEnd
  | halted
  | returned
  | faulted (f : Fault)

def Exit.ending : Exit → Ending
  | .faulted f => .faulted f
  | _ => .finished

/-- The end of a run whose text went to a sink. Only a run without a fault flushes it. -/
def Ending.flushed (out : Sink) : Ending → Ending
  | .finished =>
    match out.flushFailure with
    | some reason => .refused reason
    | none => .finished
  | ending => ending

private theorem Ending.flushed_of_none {out : Sink} (h : out.flushFailure = none)
    (ending : Ending) : ending.flushed out = ending := by
  cases ending <;> simp [flushed, h]

def Ending.fault? : Ending → Option Fault
  | .faulted f => some f
  | _ => none

def Run.effect (r : Run) : Machine × Sink × Ending := (r.machine, r.out, r.ending)

def Step.isStop : Step → Bool
  | .stop .. => true
  | _ => false

namespace Machine

/-- From a state at the head of the loop no instruction follows, or one that ends the run and leaves
another state. -/
inductive Last (p : Program) (m : Machine) : Machine → Exit → Prop where
  | offEnd (gone : p.byte? m.pc = none) : Last p m m .offEnd
  | halted (op : p.opcode? m.pc = some .halt) : Last p m { m with pc := m.pc + 1 } .halted
  | returned (op : p.opcode? m.pc = some .ret) (outside : m.calls = #[]) :
      Last p m { m with pc := m.pc + 1 } .returned
  | faulted {b : UInt8} {m' : Machine} {events : List Event} {cause : Fault.Cause}
      (fetch : p.byte? m.pc = some b) (fails : m.dispatch p b = .fault m' events cause) :
      Last p m m' (.faulted ⟨cause, b, m'.pc - 1, m'.stack.toList⟩)

variable {p : Program} {m m' m₁ : Machine} {events : List Event} {text : String}

section Stop

@[simp] theorem isStop_after (step : Step) (e : Event) : (step.after e).isStop = step.isStop := by
  cases step <;> rfl

/-- Only a halt and a return can end a run without a fault. -/
theorem execute_isStop {op : Opcode} (hhalt : op ≠ .halt) (hret : op ≠ .ret) :
    (m.execute p op).isStop = false := by
  have hform := execute_form p m op
  generalize m.execute p op = step at hform ⊢
  cases hform with
  | halted => exact absurd rfl hhalt
  | returned => exact absurd rfl hret
  | _ => rfl

theorem last_of_stop {b : UInt8} (hb : p.byte? m.pc = some b)
    (h : m.dispatch p b = .stop m' events) :
    ∃ exit : Exit, Last p m m' exit ∧ exit.ending = .finished := by
  have hop := Program.opcode?_of_byte? hb
  unfold dispatch at h
  split at h
  next op hbyte =>
    rw [hbyte] at hop
    by_cases hhalt : op = .halt
    · subst hhalt
      cases h
      exact ⟨.halted, .halted hop, rfl⟩
    by_cases hret : op = .ret
    · subst hret
      have hstop : ({ m with pc := m.pc + 1 }.ret).after (.dispatched m.pc .ret m.stack.size) =
        .stop m' events := h
      unfold ret at hstop
      split at hstop
      next => cases hstop
      next hback =>
        cases hstop
        exact ⟨.returned, .returned hop (by simpa using hback), rfl⟩
    · have hstop := congrArg Step.isStop h
      rw [isStop_after, execute_isStop hhalt hret] at hstop
      cases hstop
  next => cases h

end Stop

section Runs
variable {n fuel : Nat} {out : Sink} {trace : Trace} {r : Run}

/-- A run that ends has come to its last instruction on a path. -/
theorem last_of_runFrom (hroom : out.room = none) (hflush : out.flushFailure = none)
    (h : runFrom p fuel m out trace = some r) :
    ∃ n events text m₁ exit, Path p n m events text m₁ ∧ Last p m₁ r.machine exit ∧
      r.out = out.append text ∧ r.ending = exit.ending := by
  obtain ⟨n, events, text, m₁, out₁, hpath, hwrite, hend⟩ := concludes_of_runFrom h
  rw [Sink.writeText_of_room_none hroom] at hwrite
  cases hwrite
  have hflush₁ : (out.append text).flushFailure = none := hflush
  cases hend with
  | offEnd gone =>
    rw [finish, hflush₁]
    exact ⟨n, _, _, m₁, .offEnd, hpath, .offEnd gone, rfl, rfl⟩
  | stopped fetch stops =>
    obtain ⟨exit, hlast, hending⟩ := last_of_stop fetch stops
    rw [finish, hflush₁]
    exact ⟨n, _, _, m₁, exit, hpath, hlast, rfl, hending.symm⟩
  | faulted fetch fails => exact ⟨n, _, _, m₁, _, hpath, .faulted fetch fails, rfl, rfl⟩
  | refused fetch next refuses =>
    rw [Sink.writeText_of_room_none (show (out.append text).room = none from hroom)] at refuses
    cases refuses

private theorem finish_eq (m : Machine) (out : Sink) (trace : Trace) :
    ∃ trace', m.finish out trace = ⟨m, out, trace', Ending.finished.flushed out⟩ := by
  cases hflush : out.flushFailure <;> simp [finish, Ending.flushed, hflush]

private theorem effect_finish (m : Machine) (out : Sink) (trace trace' : Trace) :
    (m.finish out trace).effect = (m.finish out trace').effect := by
  obtain ⟨_, hfinish⟩ := finish_eq m out trace
  obtain ⟨_, hfinish'⟩ := finish_eq m out trace'
  rw [hfinish, hfinish']
  rfl

/-- Nothing of a run but its trace depends on what is recorded. -/
theorem runFrom_effect (p : Program) (fuel : Nat) (m : Machine) (out : Sink) (trace trace' : Trace) :
    (runFrom p fuel m out trace).map Run.effect = (runFrom p fuel m out trace').map Run.effect := by
  induction fuel generalizing m out trace trace' with
  | zero => rfl
  | succ fuel ih =>
    rw [runFrom, runFrom]
    split
    next => exact congrArg some (effect_finish m out trace trace')
    next b hb =>
      split
      next m₁ events text hnext =>
        split
        · exact ih _ _ _ _
        · rfl
      next m₁ events hstop => exact congrArg some (effect_finish m₁ out _ _)
      next => rfl

private theorem runFrom_of_stop {b : UInt8} (hb : p.byte? m.pc = some b)
    (hstop : m.dispatch p b = .stop m' events) (out : Sink) (trace : Trace) :
    ∃ trace', ∀ fuel,
      runFrom p (fuel + 1) m out trace = some ⟨m', out, trace', Ending.finished.flushed out⟩ := by
  obtain ⟨trace', hfinish⟩ := finish_eq m' out (trace.record events)
  refine ⟨trace', fun fuel => ?_⟩
  rw [runFrom, hb]
  dsimp only
  rw [hstop]
  exact congrArg some hfinish

theorem runFrom_of_last {exit : Exit} (hlast : Last p m m' exit) (out : Sink) (trace : Trace) :
    ∃ trace', ∀ fuel,
      runFrom p (fuel + 1) m out trace = some ⟨m', out, trace', exit.ending.flushed out⟩ := by
  cases hlast with
  | offEnd gone =>
    obtain ⟨trace', hfinish⟩ := finish_eq m out trace
    refine ⟨trace', fun fuel => ?_⟩
    rw [runFrom, gone]
    exact congrArg some hfinish
  | halted op => exact runFrom_of_stop (Program.byte?_of_opcode? op) rfl out trace
  | returned op outside =>
    have hstop : m.dispatch p Opcode.ret.byte = .stop { m with pc := m.pc + 1 }
        [.dispatched m.pc .ret m.stack.size, .returned m.pc] := by
      show ({ m with pc := m.pc + 1 }.ret).after (.dispatched m.pc .ret m.stack.size) = _
      simp [ret, outside, Step.after]
    exact runFrom_of_stop (Program.byte?_of_opcode? op) hstop out trace
  | @faulted b _ events cause fetch fails =>
    refine ⟨trace.record (events ++ [.faulted cause (m'.pc - 1)]), fun fuel => ?_⟩
    rw [runFrom, fetch]
    dsimp only
    rw [fails]
    rfl

/-- A run that still goes on when its fuel is used up has taken a path of that length. -/
theorem path_of_runFrom_eq_none (hroom : out.room = none) (h : runFrom p fuel m out trace = none) :
    ∃ events text m₁, Path p fuel m events text m₁ := by
  induction fuel generalizing m out trace with
  | zero => exact ⟨_, _, m, .refl m⟩
  | succ fuel ih =>
    rw [runFrom] at h
    split at h
    next => cases h
    next b hb =>
      split at h
      next m₁ events text hnext =>
        rw [Sink.writeText_of_room_none hroom] at h
        obtain ⟨rest, more, m₂, hpath⟩ := ih (show (out.append text).room = none from hroom) h
        exact ⟨_, _, m₂, .step hb hnext hpath⟩
      next => cases h
      next => cases h

end Runs

/-- What the evaluation of a run says of a fault. -/
theorem exists_faulted {result : Option Run} {P : Run → Fault → Prop} [∀ r f, Decidable (P r f)]
    (h : result.any (fun r => r.ending.fault?.any fun f => decide (P r f)) = true) :
    ∃ r f, result = some r ∧ r.ending = .faulted f ∧ P r f := by
  obtain ⟨r, hr, hfault⟩ := (Option.any_eq_true _ _).1 h
  obtain ⟨f, hf, hP⟩ := (Option.any_eq_true _ _).1 hfault
  refine ⟨r, f, hr, ?_, of_decide_eq_true hP⟩
  cases hending : r.ending <;> rw [hending] at hf <;> cases hf
  rfl

/-- The run of a program from its start ends in a state, having printed a text. -/
def EndsBy (p : Program) (exit : Exit) (m : Machine) (text : String) : Prop :=
  ∃ n events m₁, Path p n initial events text m₁ ∧ Last p m₁ m exit

/-- What a run that ended this way leaves behind, but for its trace. -/
theorem EndsBy.run_eq {exit : Exit} (h : EndsBy p exit m text) (trace : Trace) :
    ∃ trace', (∃ fuel, initial.run p fuel .unlimited trace =
        some ⟨m, Sink.unlimited.append text, trace', exit.ending⟩) ∧
      ∀ fuel r, initial.run p fuel .unlimited trace = some r →
        r = ⟨m, Sink.unlimited.append text, trace', exit.ending⟩ := by
  obtain ⟨n, events, m₁, hpath, hlast⟩ := h
  obtain ⟨trace', hrun⟩ := runFrom_of_last hlast (Sink.unlimited.append text)
    ((trace.record [.started p.size]).record events)
  rw [Ending.flushed_of_none rfl] at hrun
  obtain ⟨hends, hunique⟩ := hpath.runFrom_result rfl hrun
  exact ⟨trace', hends, fun fuel r hr => hunique hr⟩

theorem endsBy_of_run {fuel : Nat} {trace : Trace} {r : Run}
    (h : m.run p fuel .unlimited trace = some r) :
    ∃ exit text, EndsBy p exit r.machine text ∧ r.out = Sink.unlimited.append text ∧
      r.ending = exit.ending := by
  obtain ⟨n, events, text, m₁, exit, hpath, hlast, hout, hending⟩ := last_of_runFrom rfl rfl h
  exact ⟨exit, text, ⟨n, events, m₁, hpath, hlast⟩, hout, hending⟩

end Machine
end PixelCode
