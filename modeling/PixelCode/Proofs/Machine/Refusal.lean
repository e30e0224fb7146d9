import PixelCode.Proofs.Machine.Ending

/-! Sinks that refuse. A text is cut at the same byte in however many parts it is written, so a run on a
sink with too little room is the run on a sink that takes everything, up to that byte. -/
namespace PixelCode

namespace Machine.Path

variable {p : Program} {m m₁ : Machine} {n : Nat} {events : List Event} {text : String}
  {out out' : Sink}

/-- A run passes through a path if the sink takes what is printed on it. -/
theorem runFrom_of_taken (h : Path p n m events text m₁) (hwrite : out.writeText text = (out', none))
    (fuel : Nat) (trace : Trace) :
    runFrom p (n + fuel) m out trace = runFrom p fuel m₁ out' (trace.record events) := by
  induction h generalizing out trace with
  | refl m =>
    rw [Sink.writeText_empty] at hwrite
    cases hwrite
    simp [Trace.record]
  | @step n m m₁ m₂ b events rest text more fetch next on ih =>
    rw [Sink.writeText_append] at hwrite
    split at hwrite
    next out₁ hfirst =>
      rw [Nat.add_right_comm, runFrom, fetch]
      simp only [next, hfirst]
      rw [ih hwrite, Trace.record_append]
    next refused hrefused => exact absurd hwrite (hrefused out')

/-- A run ends on a path if the sink does not take all of what is printed on it. -/
theorem runFrom_of_refused (h : Path p n m events text m₁) {reason : String}
    (hwrite : out.writeText text = (out', some reason)) (trace : Trace) :
    ∃ m₂ trace₂, ∀ fuel,
      runFrom p (n + fuel) m out trace = some ⟨m₂, out', trace₂, .refused reason⟩ := by
  induction h generalizing out trace with
  | refl m =>
    rw [Sink.writeText_empty] at hwrite
    cases hwrite
  | @step n m m₁ m₂ b events rest text more fetch next on ih =>
    rw [Sink.writeText_append] at hwrite
    split at hwrite
    next out₁ hfirst =>
      obtain ⟨m₂, trace₂, hrest⟩ := ih hwrite (trace.record events)
      refine ⟨m₂, trace₂, fun fuel => ?_⟩
      rw [Nat.add_right_comm, runFrom, fetch]
      simp only [next, hfirst]
      exact hrest fuel
    next =>
      refine ⟨m₁, trace.record events, fun fuel => ?_⟩
      rw [Nat.add_right_comm, runFrom, fetch]
      simp only [next, hwrite]

end Machine.Path

structure Limit where
  room : Nat
  refusal : String
  flushFailure : Option String

namespace Limit

def sink (l : Limit) : Sink := ⟨#[], some l.room, l.refusal, l.flushFailure⟩

private theorem sink_writeText_of_le {l : Limit} {text : String}
    (h : text.toUTF8.data.size ≤ l.room) :
    ∃ out, l.sink.writeText text = (out, none) ∧ out.received = text.toUTF8.data ∧
      out.flushFailure = l.flushFailure := by
  refine ⟨_, if_pos h, ?_, rfl⟩
  exact Array.empty_append

private theorem sink_writeText_of_lt {l : Limit} {text : String}
    (h : l.room < text.toUTF8.data.size) :
    ∃ out, l.sink.writeText text = (out, some l.refusal) ∧
      out.received = text.toUTF8.data.take l.room := by
  refine ⟨_, if_neg (Nat.not_le.2 h), ?_⟩
  exact Array.empty_append

end Limit

structure Report where
  output : Array UInt8
  diagnostics : Array UInt8
  ending : Ending

namespace Report

def within (s : Report) (text error : Limit) : Report :=
  if text.room < s.output.size then ⟨s.output.take text.room, #[], .refused text.refusal⟩
  else
    match text.flushFailure, s.ending with
    | some reason, _ => ⟨s.output, #[], .refused reason⟩
    | none, .finished => ⟨s.output, #[], .finished⟩
    | none, ending =>
      ⟨s.output, s.diagnostics.take error.room,
        if error.room < s.diagnostics.size then .refused error.refusal
        else
          match error.flushFailure with
          | some reason => .refused reason
          | none => ending⟩

end Report

def Run.seen (r : Run) (err : Sink) : Report :=
  ⟨r.out.received, (r.report err).2.received, (r.report err).1⟩

namespace Run

variable {r : Run} {f : Fault}

private theorem seen_of_finished (hending : r.ending = .finished) (err : Sink) :
    r.seen err = ⟨r.out.received, err.received, .finished⟩ := by
  simp only [seen, report, Run.flushed, hending]

private theorem seen_of_refused {reason : String} (hending : r.ending = .refused reason)
    (err : Sink) : r.seen err = ⟨r.out.received, err.received, .refused reason⟩ := by
  simp only [seen, report, Run.flushed, hending]

/-- A fault is not reported if the text cannot be flushed. -/
theorem seen_of_flushFailure {reason : String} (hending : r.ending = .faulted f)
    (hflush : r.out.flushFailure = some reason) (err : Sink) :
    r.seen err = ⟨r.out.received, err.received, .refused reason⟩ := by
  simp only [seen, report, Run.flushed, hending, hflush]

/-- The report of a fault is cut, or fails to be flushed, or arrives as it is. -/
theorem seen_of_faulted (hending : r.ending = .faulted f) (hflush : r.out.flushFailure = none)
    (l : Limit) :
    r.seen l.sink =
      ⟨r.out.received, (f.message ++ "\n").toUTF8.data.take l.room,
        if l.room < (f.message ++ "\n").toUTF8.data.size then .refused l.refusal
        else
          match l.flushFailure with
          | some reason => .refused reason
          | none => .faulted f⟩ := by
  by_cases hfull : l.room < (f.message ++ "\n").toUTF8.data.size
  · obtain ⟨err, hwrite, hreceived⟩ := l.sink_writeText_of_lt hfull
    rw [if_pos hfull, ← hreceived]
    simp only [seen, report, Run.flushed, hending, hflush, hwrite]
  · obtain ⟨err, hwrite, hreceived, herr⟩ := l.sink_writeText_of_le (Nat.not_lt.1 hfull)
    rw [if_neg hfull, Array.take_eq_extract, Array.extract_eq_self_of_le (Nat.not_lt.1 hfull),
      ← hreceived]
    cases hl : l.flushFailure <;> simp only [seen, report, Run.flushed, hending, hflush, hwrite, herr, hl]

/-- On sinks that take everything a fault is reported, and nothing else is. -/
theorem seen_unlimited {exit : Exit} (hending : r.ending = exit.ending)
    (hflush : r.out.flushFailure = none) :
    r.ending = .finished ∧ r.seen .unlimited = ⟨r.out.received, #[], .finished⟩ ∨
      ∃ f, r.ending = .faulted f ∧
        r.seen .unlimited = ⟨r.out.received, (f.message ++ "\n").toUTF8.data, .faulted f⟩ := by
  cases exit with
  | faulted f =>
    have hwrite : Sink.unlimited.writeText (f.message ++ "\n") =
        (⟨(f.message ++ "\n").toUTF8.data, none, "", none⟩, none) := by
      rw [Sink.writeText_of_room_none rfl, Sink.append, Sink.unlimited, Array.empty_append]
    have hending : r.ending = .faulted f := hending
    refine .inr ⟨f, hending, ?_⟩
    simp only [seen, report, Run.flushed, hending, hflush, hwrite]
  | _ => exact .inl ⟨hending, seen_of_finished hending _⟩

/-- What is seen on sinks with limits if the first takes all of the text. -/
theorem seen_within {exit : Exit} (hending : r.ending = exit.ending)
    (hflush : r.out.flushFailure = none) {r' : Run} {text error : Limit}
    (hfits : r.out.received.size ≤ text.room) (hreceived : r'.out.received = r.out.received)
    (htext : r'.out.flushFailure = text.flushFailure)
    (hending' : r'.ending = r.ending.flushed r'.out) :
    r'.seen error.sink = (r.seen .unlimited).within text error := by
  rcases seen_unlimited hending hflush with ⟨hfinished, hseen⟩ | ⟨f, hfaulted, hseen⟩
  · rw [hseen, Report.within, if_neg (Nat.not_lt.2 hfits)]
    rw [hfinished, Ending.flushed, htext] at hending'
    cases htextFlush : text.flushFailure with
    | none =>
      rw [htextFlush] at hending'
      rw [seen_of_finished hending', hreceived]
      rfl
    | some reason =>
      rw [htextFlush] at hending'
      rw [seen_of_refused hending', hreceived]
      rfl
  · rw [hseen, Report.within, if_neg (Nat.not_lt.2 hfits)]
    have hending' : r'.ending = .faulted f := by rw [hending', hfaulted]; rfl
    cases htextFlush : text.flushFailure with
    | none => rw [seen_of_faulted hending' (htext.trans htextFlush), hreceived]
    | some reason =>
      rw [seen_of_flushFailure hending' (htext.trans htextFlush), hreceived]
      rfl

end Run

namespace Machine

/-- Sinks with limits only cut what a run leaves on them, whatever ran before. -/
theorem run_on_limits (p : Program) (fuel : Nat) (trace : Trace) (r : Run)
    (hrun : initial.run p fuel .unlimited trace = some r) (m : Machine) (text error : Limit)
    (trace' : Trace) :
    (∃ r', m.run p fuel text.sink trace' = some r' ∧
      r'.seen error.sink = (r.seen .unlimited).within text error ∧
      (r.out.received.size ≤ text.room → r'.machine = r.machine)) ∧
    (r.ending = .finished ∧ r.seen .unlimited = ⟨r.out.received, #[], .finished⟩ ∨
      ∃ f, r.ending = .faulted f ∧
        r.seen .unlimited = ⟨r.out.received, (f.message ++ "\n").toUTF8.data, .faulted f⟩) := by
  obtain ⟨exit, printed, ⟨n, events, m₁, hpath, hlast⟩, hout, hending⟩ := endsBy_of_run hrun
  have hflush : r.out.flushFailure = none := by rw [hout]; rfl
  have hprinted : r.out.received = printed.toUTF8.data := by
    rw [hout]
    exact Array.empty_append
  refine ⟨?_, r.seen_unlimited hending hflush⟩
  obtain ⟨k, rfl, hrest⟩ := hpath.runFrom_eq_some rfl hrun
  by_cases hfull : text.room < r.out.received.size
  · obtain ⟨out, hwrite, hreceived⟩ := text.sink_writeText_of_lt (hprinted ▸ hfull)
    obtain ⟨m₂, trace₂, hrefused⟩ := hpath.runFrom_of_refused hwrite
      (trace'.record [.started p.size])
    refine ⟨_, hrefused k, ?_, fun hfits => absurd hfull (Nat.not_lt.2 hfits)⟩
    have hcut : (r.seen .unlimited).within text error =
        ⟨r.out.received.take text.room, #[], .refused text.refusal⟩ := if_pos hfull
    rw [Run.seen_of_refused rfl, hcut, hprinted, ← hreceived]
    rfl
  · have hfits : r.out.received.size ≤ text.room := Nat.not_lt.1 hfull
    obtain ⟨out, hwrite, hreceived, htext⟩ := text.sink_writeText_of_le (hprinted ▸ hfits)
    obtain ⟨trace₂, hends⟩ := runFrom_of_last hlast out
      ((trace'.record [.started p.size]).record events)
    obtain ⟨k, rfl⟩ : ∃ k', k = k' + 1 := by
      cases k with
      | zero => cases hrest
      | succ k => exact ⟨k, rfl⟩
    refine ⟨⟨r.machine, out, trace₂, exit.ending.flushed out⟩, ?_, ?_, fun _ => rfl⟩
    · rw [run, reset, hpath.runFrom_of_taken hwrite, hends]
    · exact Run.seen_within hending hflush hfits (hreceived.trans hprinted.symm) htext
        (by rw [hending])

def letter : Program := .ofList [0x01, 65, 0x61, 0x02]

private theorem letter_run :
    ∃ r f, initial.run letter 4 .unlimited (.start none) = some r ∧ r.ending = .faulted f ∧
      r.out.received = #[65] ∧ 16 < (f.message ++ "\n").toUTF8.data.size ∧
      (f.message ++ "\n").toUTF8.data.take 16 = "InterpreterError".toUTF8.data := by
  have hrun : (initial.run letter 4 .unlimited (.start none)).any (fun r =>
      r.ending.fault?.any fun f =>
        decide (r.out.received = #[65] ∧ 16 < (f.message ++ "\n").toUTF8.data.size ∧
          (f.message ++ "\n").toUTF8.data.take 16 = "InterpreterError".toUTF8.data)) = true := by
    decide +kernel
  exact exists_faulted hrun

/-- The letter just fits, and the report is cut behind its first word. The calls and the exception under
way that an earlier run has left do not matter. -/
theorem run_on_limits_letter :
    ∃ r r', initial.run letter 4 .unlimited (.start none) = some r ∧
      { initial with pc := 9, calls := #[3], unwinding := true }.run letter 4
        (Limit.mk 1 "sink full" none).sink (.start none) = some r' ∧
      r'.seen (Limit.mk 16 "sink full" (some "flush refused")).sink =
        ⟨#[65], "InterpreterError".toUTF8.data, .refused "sink full"⟩ ∧
      r'.machine = r.machine := by
  obtain ⟨r, f, hrun, hending, hout, hsize, htake⟩ := letter_run
  obtain ⟨⟨r', hrun', hseen, hmachine⟩, hfull⟩ := run_on_limits letter 4 (.start none) r hrun
    { initial with pc := 9, calls := #[3], unwinding := true } ⟨1, "sink full", none⟩
    ⟨16, "sink full", some "flush refused"⟩ (.start none)
  refine ⟨r, r', hrun, hrun', ?_, hmachine (by rw [hout]; decide)⟩
  rcases hfull with ⟨hfinished, -⟩ | ⟨f', hfaulted, hreport⟩
  · rw [hending] at hfinished
    cases hfinished
  · rw [hending] at hfaulted
    cases hfaulted
    have hroom : ¬ 1 < (#[65] : Array UInt8).size := by decide
    rw [hseen, hreport, hout, Report.within, if_neg hroom]
    dsimp only
    rw [htake, if_pos hsize]

end Machine
end PixelCode
