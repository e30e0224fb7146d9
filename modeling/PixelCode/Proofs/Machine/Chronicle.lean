import PixelCode.Proofs.Machine.Reports

/-! The events of a whole run. An exception that is taken is followed by its clause at once, and the last
event tells how the run ended. -/
namespace PixelCode

inductive Due where
  | anything
  /-- An exception was routed to a clause, and at most `depth` values were left on the stack. -/
  | clause (target depth : Nat)

inductive Ending.Closes : Ending → List Event → Prop where
  | finished (pc depth : Nat) : Closes .finished [.finished pc depth]
  | faulted (f : Fault) : Closes (.faulted f) [.faulted f.cause f.pc]
  | refused (reason : String) : Closes (.refused reason) []

/-- The events of a run from a head of the loop on, by what is due there and how the run ends. -/
inductive Chronicle (p : Program) (ending : Ending) : Due → List Event → Prop where
  | plain {events rest : List Event} (plain : ∀ e ∈ events, e.isPlain = true)
      (on : Chronicle p ending .anything rest) : Chronicle p ending .anything (events ++ rest)
  | raised {q pc target depth size : Nat} {op : Opcode} {e : Exception} {rest : List Event}
      (divides : op = .div ∨ op = .mod) (on : Chronicle p ending (.clause target depth) rest) :
      Chronicle p ending .anything
        (.dispatched q op size :: .raised e pc :: .handled target depth :: rest)
  | entered {target depth size : Nat} {rest : List Event} (shallow : size ≤ depth)
      (inside : p.next target ≤ p.size) (on : Chronicle p ending .anything rest) :
      Chronicle p ending (.clause target depth)
        (.dispatched target .clause size ::
          .entered (p.next target) (p.slice (target + 2) (p.next target)) :: rest)
  | closed {events : List Event} (closes : ending.Closes events) :
      Chronicle p ending .anything events
  | escaped {q pc size : Nat} {op : Opcode} {e : Exception} {f : Fault}
      (divides : op = .div ∨ op = .mod) (fails : ending = .faulted f) :
      Chronicle p ending .anything [.dispatched q op size, .raised e pc, .faulted f.cause f.pc]
  /-- The clause that accepted an exception is cut off by the end of the program. -/
  | cut {target depth size : Nat} {f : Fault} (shallow : size ≤ depth)
      (truncated : p.size < p.next target) (fails : ending = .faulted f)
      (missing : f.cause = .missingOperand) :
      Chronicle p ending (.clause target depth)
        [.dispatched target .clause size, .faulted .missingOperand f.pc]

namespace Machine

inductive Ready (p : Program) (m : Machine) : Due → Prop where
  | anything (settled : m.unwinding = false) : Ready p m .anything
  | clause {depth : Nat} (unwinding : m.unwinding = true) (op : p.opcode? m.pc = some .clause)
      (open_ : m.scopes ≠ []) (shallow : m.stack.size ≤ depth) : Ready p m (.clause m.pc depth)

variable {p : Program} {m m' m₁ : Machine} {due : Due} {events : List Event} {text : String}

private theorem size_truncate_le (s : Stack) (depth : Nat) : (s.truncate depth).size ≤ depth := by
  rw [Stack.size_eq, Stack.toList_truncate]
  exact List.length_take_le _ _

/-- The scope that takes an exception is left with a clause that is due. -/
theorem Aligned.ready_of_takes (h : Aligned p m) {e : Exception} {scope : Scope} {outer : List Scope}
    {target : Nat} (taken : Takes p e scope outer target m.scopes) (stack : Stack)
    (calls : Array Nat) :
    Ready p
      { m with
        pc := target
        stack := stack.truncate scope.depth
        calls
        scopes := { scope with spent := true } :: outer
        unwinding := true }
      (.clause target scope.depth) := by
  have hclause := (h.scopes scope taken.mem.1).2
  have htarget := (Program.acceptingClause_eq_some hclause taken.found.2).2
  exact .clause rfl htarget (List.cons_ne_nil _ _) (size_truncate_le _ _)

/-- One instruction puts its events before those that follow, and leaves what is due after it. -/
theorem Ready.step (h : Ready p m due) (hm : Aligned p m) {b : UInt8} (fetch : p.byte? m.pc = some b)
    (next : m.dispatch p b = .next m' events text) :
    ∃ due', Ready p m' due' ∧ ∀ {ending rest},
      Chronicle p ending due' rest → Chronicle p ending due (events ++ rest) := by
  cases dispatch_reports fetch next with
  | plain plain settled flag =>
    cases h with
    | anything hsettled =>
      have hflag : m'.unwinding = false := by
        cases hm' : m'.unwinding with
        | false => rfl
        | true => exact absurd (flag hm') (by simp [hsettled])
      exact ⟨.anything, .anything hflag, .plain plain⟩
    | clause hunwinding hop => exact absurd hop (settled hunwinding)
  | raised op_eq divides taken left =>
    cases h with
    | anything => exact ⟨_, left ▸ hm.ready_of_takes taken _ _, .raised divides⟩
    | clause _ hop =>
      rw [op_eq, Option.some.injEq] at hop
      subst hop
      rcases divides with hdiv | hmod
      · cases hdiv
      · cases hmod
  | entered hop inside unwinding settled =>
    cases h with
    | anything hsettled =>
      rw [hsettled] at unwinding
      cases unwinding
    | clause _ _ _ shallow => exact ⟨.anything, .anything settled, .entered shallow inside⟩

/-- A path puts its events before those that follow. -/
theorem Path.chronicle {n : Nat} (h : Path p n m events text m₁) (hm : Aligned p m)
    (hready : Ready p m due) :
    ∃ due₁, Ready p m₁ due₁ ∧ ∀ {ending rest},
      Chronicle p ending due₁ rest → Chronicle p ending due (events ++ rest) := by
  induction h generalizing due with
  | refl => exact ⟨due, hready, id⟩
  | step fetch next on ih =>
    obtain ⟨due', hready', hfirst⟩ := hready.step hm fetch next
    obtain ⟨due₁, hready₁, hrest⟩ := ih (hm.move (dispatch_move fetch next)) hready'
    refine ⟨due₁, hready₁, ?_⟩
    intro ending rest hend
    rw [List.append_assoc]
    exact hfirst (hrest hend)

/-- What a run without a fault closes with. -/
theorem finish_closes (m : Machine) (out : Sink) (trace : Trace) :
    ∃ last, (m.finish out trace).trace = trace.record last ∧
      (m.finish out trace).ending.Closes last := by
  unfold finish
  split
  next reason _ => exact ⟨[], by simp [Trace.record], .refused reason⟩
  next => exact ⟨_, rfl, .finished m.pc m.stack.size⟩

/-- Where a clause is due the run does not end without a fault. -/
theorem Ready.not_stopped {target depth : Nat} (h : Ready p m (.clause target depth)) {b : UInt8}
    (fetch : p.byte? m.pc = some b) : m.dispatch p b ≠ .stop m' events := by
  intro stops
  obtain ⟨exit, hlast, hending⟩ := last_of_stop fetch stops
  cases h with
  | clause _ hop =>
    cases hlast with
    | offEnd gone =>
      rw [fetch] at gone
      cases gone
    | halted op =>
      rw [hop] at op
      cases op
    | returned op =>
      rw [hop] at op
      cases op
    | faulted => cases hending

/-- An instruction that fails closes the run. -/
theorem Ready.faulted (h : Ready p m due) {cause : Fault.Cause} (hfail : Failure p m m' events cause)
    (b : UInt8) (pc : Nat) (stack : List Float) :
    Chronicle p (.faulted ⟨cause, b, pc, stack⟩) due (events ++ [.faulted cause pc]) := by
  cases h with
  | anything hsettled =>
    cases hfail with
    | escape rest op_eq divides escapes => exact .escaped divides rfl
    | _ => exact .plain (List.forall_mem_singleton.2 rfl) (.closed (.faulted _))
  | clause hunwinding hop open_ shallow =>
    have hclause {op : Opcode} (h : p.opcode? m.pc = some op) : op = .clause :=
      Option.some.inj (h.symm.trans hop)
    cases hfail with
    | operand op_eq cut =>
      rw [hclause op_eq]
      exact .cut shallow cut rfl rfl
    | value stack op_eq takes => exact absurd (hclause op_eq) takes
    | load id op => cases hclause op
    | call id op => cases hclause op
    | define id op => cases hclause op
    | openTry op => cases hclause op
    | misplaced op outside => exact absurd outside open_
    | unended scope outer op inside open_ settled =>
      rw [hunwinding] at settled
      cases settled
    | escape rest op_eq divides =>
      rw [hclause op_eq] at divides
      rcases divides with hdiv | hmod
      · cases hdiv
      · cases hmod

/-- An instruction whose text is refused closes the run; it is none that has to do with exceptions,
since those print nothing. -/
theorem Ready.refused (h : Ready p m due) {b : UInt8} (fetch : p.byte? m.pc = some b)
    (next : m.dispatch p b = .next m' events text) {out out' : Sink} {reason : String}
    (refuses : out.writeText text = (out', some reason)) :
    Chronicle p (.refused reason) due events := by
  have hprints : text ≠ "" := by
    rintro rfl
    rw [Sink.writeText_empty] at refuses
    cases refuses
  cases dispatch_reports fetch next with
  | plain plain settled =>
    cases h with
    | anything =>
      rw [← List.append_nil events]
      exact .plain plain (.closed (.refused reason))
    | clause hunwinding hop => exact absurd hop (settled hunwinding)
  | raised => exact absurd rfl hprints
  | entered => exact absurd rfl hprints

/-- The conclusion of a run adds its last events. -/
theorem Concludes.chronicle {out : Sink} {trace : Trace} {r : Run} (h : Concludes p m out trace r)
    (hready : Ready p m due) :
    ∃ last, r.trace = trace.record last ∧ Chronicle p r.ending due last := by
  cases h with
  | offEnd gone =>
    cases hready with
    | anything =>
      obtain ⟨last, htrace, hcloses⟩ := m.finish_closes out trace
      exact ⟨last, htrace, .closed hcloses⟩
    | clause _ hop =>
      rw [Program.opcode?, gone] at hop
      cases hop
  | @stopped b m' events fetch stops =>
    obtain ⟨last, htrace, hcloses⟩ := m'.finish_closes out (trace.record events)
    refine ⟨events ++ last, by rw [htrace, Trace.record_append], ?_⟩
    cases due with
    | anything => exact .plain (dispatch_stop_isPlain stops) (.closed hcloses)
    | clause target depth => exact absurd stops (hready.not_stopped fetch)
  | faulted fetch fails => exact ⟨_, rfl, hready.faulted (dispatch_failure fetch fails) _ _ _⟩
  | refused fetch next refuses => exact ⟨_, rfl, hready.refused fetch next refuses⟩

end Machine

section Positions
variable {p : Program} {ending : Ending} {due : Due} {events : List Event}

def Event.FitsIn (p : Program) (before after : List Event) : Event → Prop
  | .raised _ _ =>
    (∃ earlier q op size, before = earlier ++ [.dispatched q op size] ∧ (op = .div ∨ op = .mod)) ∧
      ((∃ target depth later, after = .handled target depth :: later) ∨
        ∃ cause pc later, after = .faulted cause pc :: later)
  | .handled target depth =>
    ∃ size next later, after = .dispatched target .clause size :: next :: later ∧ size ≤ depth ∧
      (p.next target ≤ p.size ∧
          next = .entered (p.next target) (p.slice (target + 2) (p.next target)) ∨
        p.size < p.next target ∧ ∃ pc, next = .faulted .missingOperand pc)
  | .entered _ _ =>
    ∃ earlier target depth size,
      before = earlier ++ [.handled target depth, .dispatched target .clause size]
  | .faulted _ _ | .finished _ _ => after = []
  | _ => True

def AllFit (p : Program) (before : List Event) : List Event → Prop
  | [] => True
  | e :: after => e.FitsIn p before after ∧ AllFit p (before ++ [e]) after

private theorem AllFit.fitsIn {before earlier later : List Event} {e : Event}
    (h : AllFit p before events)
    (hsplit : events = earlier ++ e :: later) : e.FitsIn p (before ++ earlier) later := by
  induction earlier generalizing before events with
  | nil =>
    subst hsplit
    rw [List.append_nil]
    exact h.1
  | cons x earlier ih =>
    subst hsplit
    have hrest := ih h.2 rfl
    rwa [List.append_assoc, List.singleton_append] at hrest

private theorem Event.fitsIn_of_isPlain {e : Event} (h : e.isPlain = true)
    (before after : List Event) : e.FitsIn p before after := by
  cases e <;> trivial

theorem AllFit.plain {before rest : List Event} (hplain : ∀ e ∈ events, e.isPlain = true)
    (hrest : AllFit p (before ++ events) rest) : AllFit p before (events ++ rest) := by
  induction events generalizing before with
  | nil => simpa using hrest
  | cons e events ih =>
    obtain ⟨he, hevents⟩ := List.forall_mem_cons.1 hplain
    refine ⟨e.fitsIn_of_isPlain he _ _, ih hevents ?_⟩
    simpa using hrest

def Due.Announced : Due → List Event → Prop
  | .anything, _ => True
  | .clause target depth, before => ∃ earlier, before = earlier ++ [.handled target depth]

/-- A clause that is due follows at once. -/
theorem Chronicle.fitsIn_handled {target depth : Nat}
    (h : Chronicle p ending (.clause target depth) events) (before : List Event) :
    Event.FitsIn p before events (.handled target depth) := by
  cases h with
  | entered shallow inside => exact ⟨_, _, _, rfl, shallow, .inl ⟨inside, rfl⟩⟩
  | cut shallow truncated => exact ⟨_, _, _, rfl, shallow, .inr ⟨truncated, _, rfl⟩⟩

/-- The events of a run fit together. -/
theorem Chronicle.allFit (h : Chronicle p ending due events) {before : List Event}
    (hdue : due.Announced before) : AllFit p before events := by
  induction h generalizing before with
  | plain plain _ ih => exact .plain plain (ih trivial)
  | raised divides on ih =>
    refine ⟨trivial, ⟨⟨before, _, _, _, rfl, divides⟩, .inl ⟨_, _, _, rfl⟩⟩, on.fitsIn_handled _, ?_⟩
    exact ih ⟨_, rfl⟩
  | entered shallow inside _ ih =>
    obtain ⟨earlier, rfl⟩ := hdue
    exact ⟨trivial, ⟨earlier, _, _, _, List.append_assoc _ _ _⟩, ih trivial⟩
  | closed closes =>
    cases closes with
    | finished => exact ⟨rfl, trivial⟩
    | faulted => exact ⟨rfl, trivial⟩
    | refused => trivial
  | escaped divides =>
    exact ⟨trivial, ⟨⟨before, _, _, _, rfl, divides⟩, .inr ⟨_, _, _, rfl⟩⟩, rfl, trivial⟩
  | cut => exact ⟨trivial, rfl, trivial⟩

/-- Before the events with which a run closes there is none of them. -/
theorem Chronicle.exists_closes (h : Chronicle p ending due events) :
    ∃ inner last, events = inner ++ last ∧ (∀ e ∈ inner, e.isFinal = false) ∧
      ending.Closes last := by
  have hplain {e : Event} (he : e.isPlain = true) : e.isFinal = false := by
    cases e <;> first | rfl | cases he
  induction h with
  | @plain events rest plain on ih =>
    obtain ⟨inner, last, rfl, hinner, hcloses⟩ := ih
    refine ⟨events ++ inner, last, (List.append_assoc _ _ _).symm, ?_, hcloses⟩
    exact List.forall_mem_append.2 ⟨fun e he => hplain (plain e he), hinner⟩
  | @raised q pc target depth size op e rest divides on ih =>
    obtain ⟨inner, last, rfl, hinner, hcloses⟩ := ih
    refine ⟨.dispatched q op size :: .raised e pc :: .handled target depth :: inner, last, rfl, ?_, hcloses⟩
    simpa [Event.isFinal] using hinner
  | entered shallow inside on ih =>
    obtain ⟨inner, last, rfl, hinner, hcloses⟩ := ih
    refine ⟨_ :: _ :: inner, last, rfl, ?_, hcloses⟩
    simpa [Event.isFinal] using hinner
  | @closed events closes => exact ⟨[], events, rfl, by simp, closes⟩
  | @escaped q pc size op e f divides fails =>
    subst fails
    exact ⟨[.dispatched q op size, .raised e pc], _, rfl, by simp [Event.isFinal], .faulted f⟩
  | @cut target depth size f shallow truncated fails missing =>
    subst fails
    refine ⟨[.dispatched target .clause size], _, rfl, by simp [Event.isFinal], ?_⟩
    rw [← missing]
    exact .faulted f

structure TellsEnding (events : List Event) (ending : Ending) : Prop where
  finished : ending = .finished ↔ ∃ pc depth, events.getLast? = some (.finished pc depth)
  faulted : ∀ cause pc, (∃ f, ending = .faulted f ∧ f.cause = cause ∧ f.pc = pc) ↔
    events.getLast? = some (.faulted cause pc)
  refused : (∃ reason, ending = .refused reason) ↔ ∀ e ∈ events, e.isFinal = false

private theorem Ending.Closes.tellsEnding {inner last : List Event} (h : ending.Closes last)
    (hinner : ∀ e ∈ inner, e.isFinal = false) : TellsEnding (inner ++ last) ending := by
  cases h with
  | finished pc depth =>
    constructor
    · simp
    · simp
    · simp [Event.isFinal]
  | faulted f =>
    constructor
    · simp
    · simp
    · simp [Event.isFinal]
  | refused reason =>
    have hlast {e : Event} (he : e.isFinal = true) : inner.getLast? ≠ some e := by
      intro hlast
      rw [hinner e (List.mem_of_getLast? hlast)] at he
      cases he
    constructor
    · simpa using fun pc depth => hlast (e := .finished pc depth) rfl
    · simpa using fun cause pc => hlast (e := .faulted cause pc) rfl
    · simpa using hinner

end Positions

private theorem Trace.toList_record_start (events : List Event) :
    ((Trace.start (some .trace)).record events).events.toList = events := by
  have hadmits (level : Level) : Filter.admits (some .trace) level = true := by
    cases level <;> rfl
  simp [record, start, hadmits]

namespace Machine

/-- The events of every run that ends, on every sink: the first says that the run started, the last tells
how it ended, and each one that has to do with an exception stands between those that belong to it. -/
theorem run_events (m : Machine) (p : Program) (fuel : Nat) (out : Sink) (r : Run)
    (hrun : m.run p fuel out (.start (some .trace)) = some r) :
    (∃ rest, r.trace.events.toList = .started p.size :: rest) ∧
      TellsEnding r.trace.events.toList r.ending ∧
      ∀ before e after, r.trace.events.toList = before ++ e :: after → e.FitsIn p before after := by
  obtain ⟨n, events, text, m₁, out₁, hpath, -, hend⟩ := concludes_of_runFrom hrun
  obtain ⟨due, hready, hpathEvents⟩ := hpath.chronicle (.initial p) (.anything rfl)
  obtain ⟨last, htrace, hlast⟩ := hend.chronicle hready
  have hchronicle := hpathEvents hlast
  have hevents : r.trace.events.toList = .started p.size :: (events ++ last) := by
    rw [htrace, Trace.record_append, Trace.record_append, Trace.toList_record_start]
    rfl
  rw [hevents]
  refine ⟨⟨_, rfl⟩, ?_, ?_⟩
  · obtain ⟨inner, closing, hsplit, hinner, hcloses⟩ := hchronicle.exists_closes
    have hstarted : ∀ e ∈ .started p.size :: inner, e.isFinal = false :=
      List.forall_mem_cons.2 ⟨rfl, hinner⟩
    rw [hsplit]
    exact hcloses.tellsEnding hstarted
  · intro before e after hsplit
    have hfit : AllFit p [] (.started p.size :: (events ++ last)) :=
      ⟨trivial, hchronicle.allFit trivial⟩
    exact hfit.fitsIn hsplit

/-- A division by zero whose clause accepts it with the last byte of the program, one type too early. -/
def cutAccepting : Program := .ofList [0x70, 0x01, 1, 0x01, 0, 0x13, 0x71, 2, 1]

private theorem cutAccepting_run :
    (initial.run cutAccepting 6 .unlimited (.start (some .trace))).map (·.trace.events.toList) =
      some [.started 9, .dispatched 0 .openTry 0, .dispatched 1 .push 0, .dispatched 3 .push 1,
        .dispatched 5 .div 2, .raised .divisionByZero 6, .handled 6 0, .dispatched 6 .clause 0,
        .faulted .missingOperand 9] := by
  decide +kernel

/-- The exception is handled, and the clause that is due fails. -/
theorem run_events_cutAccepting :
    ∃ r, initial.run cutAccepting 6 .unlimited (.start (some .trace)) = some r ∧
      (∃ f, r.ending = .faulted f ∧ f.cause = .missingOperand ∧ f.pc = 9) ∧
      Event.FitsIn cutAccepting
        [.started 9, .dispatched 0 .openTry 0, .dispatched 1 .push 0, .dispatched 3 .push 1,
          .dispatched 5 .div 2, .raised .divisionByZero 6]
        [.dispatched 6 .clause 0, .faulted .missingOperand 9] (.handled 6 0) := by
  obtain ⟨r, hrun, hevents⟩ := Option.map_eq_some_iff.1 cutAccepting_run
  obtain ⟨-, hending, hfit⟩ := run_events initial cutAccepting 6 .unlimited r hrun
  rw [hevents] at hending hfit
  exact ⟨r, hrun, (hending.faulted _ _).2 rfl, hfit _ _ _ rfl⟩

end Machine
end PixelCode
