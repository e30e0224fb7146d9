import PixelCode.Machine.Sink
import PixelCode.Machine.Step

/-! Runs of a program, and what they leave behind. -/
namespace PixelCode

inductive Ending where
  | finished
  | faulted (f : Fault)
  | refused (reason : String)

def Ending.refusalMessage (reason : String) : String := s!"failed to write to sink: {reason}"

structure Run where
  machine : Machine
  out : Sink
  trace : Trace
  ending : Ending

namespace Machine

def finish (m : Machine) (out : Sink) (trace : Trace) : Run :=
  match out.flushFailure with
  | some reason => ⟨m, out, trace, .refused reason⟩
  | none => ⟨m, out, trace.record [.finished m.pc m.stack.size], .finished⟩

/-- Runs on from a state for at most `fuel` instructions. A run that takes more has no result. -/
def runFrom (p : Program) : Nat → Machine → Sink → Trace → Option Run
  | 0, _, _, _ => none
  | fuel + 1, m, out, trace =>
    match p.byte? m.pc with
    | none => some (m.finish out trace)
    | some byte =>
      match m.dispatch p byte with
      | .next m events text =>
        match out.writeText text with
        | (out, none) => runFrom p fuel m out (trace.record events)
        | (out, some reason) => some ⟨m, out, trace.record events, .refused reason⟩
      | .stop m events => some (m.finish out (trace.record events))
      | .fault m events cause =>
        let f : Fault := ⟨cause, byte, m.pc - 1, m.stack.toList⟩
        some ⟨m, out, trace.record (events ++ [.faulted cause f.pc]), .faulted f⟩

/-- Runs a program from its start. A fault is returned and not reported. -/
def run (m : Machine) (p : Program) (fuel : Nat) (out : Sink) (trace : Trace) : Option Run :=
  runFrom p fuel m.reset out (trace.record [.started p.size])

end Machine

namespace Run

/-- How a run has ended once its text sink is flushed, which comes before the report of a fault. -/
def flushed (r : Run) : Ending :=
  match r.ending, r.out.flushFailure with
  | .faulted _, some reason => .refused reason
  | ending, _ => ending

def report (r : Run) (err : Sink) : Ending × Sink :=
  match r.flushed with
  | .faulted f =>
    match err.writeText (f.message ++ "\n") with
    | (err, some reason) => (.refused reason, err)
    | (err, none) =>
      match err.flushFailure with
      | some reason => (.refused reason, err)
      | none => (.faulted f, err)
  | ending => (ending, err)

end Run
end PixelCode
