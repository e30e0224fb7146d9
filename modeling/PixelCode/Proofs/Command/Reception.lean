import PixelCode.Proofs.Command.Pairing
import PixelCode.Proofs.Machine.Delivery

/-! Error streams that may refuse. A process does the same as on an error stream that takes everything, until something
that it tells is refused; then it is aborted. What arrives on the error stream is what fits of all that was told. -/
namespace PixelCode.Command

open Files (Volume)

variable {F : Type} {stderr : Sink} {w w' : World F}

namespace World

def Received (stderr : Sink) (w : World F) : Prop := w.stderr = (stderr.writeText (errorText w.told)).1

structure Missed (stderr : Sink) (w : World F) : Prop where
  received : w.Received stderr
  refused : ¬ stderr.Takes (errorText w.told)

private theorem errorText_tell (w : World F) (notice : Notice) :
    errorText (w.tell notice).told = errorText w.told ++ notice.render := by
  apply String.toList_injective
  simp [errorText, tell, String.toList_join]

theorem Received.tell (h : w.Received stderr) (notice : Notice) : (w.tell notice).Received stderr := by
  rw [Received, errorText_tell, ← Sink.writeText_writeText, ← h]
  rfl

theorem Received.received_eq (h : w.Received stderr) (htakes : stderr.Takes (errorText w.told)) :
    w.stderr.received = stderr.received ++ (errorText w.told).toUTF8.data := by
  rw [h, htakes.received_writeText]

private theorem Received.missed (h : w.Received stderr) {notice : Notice} {reason : String}
    (hrefused : (w.stderr.writeText notice.render).2 = some reason) : (w.tell notice).Missed stderr := by
  refine ⟨h.tell notice, ?_⟩
  rw [errorText_tell, Sink.takes_append, ← h]
  rintro ⟨-, htakes⟩
  cases htakes.symm.trans hrefused

theorem Missed.tell (h : w.Missed stderr) (notice : Notice) : (w.tell notice).Missed stderr := by
  refine ⟨h.received.tell notice, ?_⟩
  rw [errorText_tell, Sink.takes_append]
  exact fun htakes => h.refused htakes.1

theorem Missed.tellPanic (h : w.Missed stderr) (p : Panic) : (w.tellPanic p).Missed stderr :=
  tellPanic_of_tell p h fun _ notice hv => hv.tell notice

end World

/-- The second world is the first one with an error stream that takes everything. -/
structure Follows (stderr : Sink) (w w' : World F) : Prop where
  files : w.files = w'.files
  stdout : w.stdout = w'.stdout
  runtime : w.runtime = w'.runtime
  told : w.told = w'.told
  received : w.Received stderr
  heard : w'.Heard

theorem Follows.tell (h : Follows stderr w w') (notice : Notice) : Follows stderr (w.tell notice) (w'.tell notice) where
  files := h.files
  stdout := h.stdout
  runtime := h.runtime
  told := congrArg (·.push notice) h.told
  received := h.received.tell notice
  heard := (h.heard.beside_tell notice).heard

theorem Follows.tellPanic (h : Follows stderr w w') (p : Panic) : Follows stderr (w.tellPanic p) (w'.tellPanic p) := by
  rw [World.tellPanic, World.tellPanic, h.runtime]
  generalize w'.runtime.report p = lines
  induction lines generalizing w w' with
  | nil => exact h
  | cons line lines ih => exact ih (h.tell _)

def following (stderr : Sink) : Pairing F where
  related := Follows stderr
  broken := World.Missed stderr
  files h := h.files

section Telling
variable [Volume F]

private theorem Agrees.abort_following (p : Panic) :
    Agrees (following stderr) (abort p : Action (StateM (World F)) Unit) (abort p) :=
  fun _ _ h => .inl ⟨rfl, h.tellPanic p⟩

/-- What follows a refused notice has to break off; if the notice is taken, it is the same as where all is taken. -/
theorem Agrees.report_following {notice : Notice} {f : Option String → Action (StateM (World F)) Unit}
    (htaken : Agrees (following stderr) (f none) (f none))
    (hrefused : ∀ reason (w : World F), (w.stderr.writeText notice.render).2 = some reason → w.Received stderr →
      (outcome (f (some reason)) (w.tell notice)).1 = .error .aborted ∧
        (outcome (f (some reason)) (w.tell notice)).2.Missed stderr) :
    Agrees (following stderr) (ExceptT.lift (Host.report notice) >>= f) (ExceptT.lift (Host.report notice) >>= f) := by
  intro w w' h
  rw [outcome_bind, outcome_bind, outcome_report, outcome_report, h.heard.writeText]
  cases hwrite : (w.stderr.writeText notice.render).2 with
  | none => exact htaken (h.tell notice)
  | some reason => exact .inr (hrefused reason w hwrite h.received)

private theorem Agrees.say_following (line : String) :
    Agrees (following stderr) (say line : Action (StateM (World F)) Unit) (say line) := by
  refine .report_following (Reads.pure ()).agrees fun reason w hwrite h => ?_
  rw [outcome_abort]
  exact ⟨rfl, (h.missed hwrite).tellPanic _⟩

/-- A report that is refused is followed by a message, which is refused as well. -/
theorem Agrees.reportFault_following (f : Fault) :
    Agrees (following stderr) (reportFault f : Action (StateM (World F)) Unit) (reportFault f) := by
  refine .report_following (Reads.throw .faulted).agrees fun reason w hwrite h => ?_
  have hagain (line : String) : outcome (say line) (w.tell (.text (f.message ++ "\n"))) =
      (.error .aborted, ((w.tell (.text (f.message ++ "\n"))).tell (.text (line ++ "\n"))).tellPanic (.notice reason)) := by
    rw [say, outcome_bind, outcome_report]
    have hrefused : ((w.tell (.text (f.message ++ "\n"))).stderr.writeText (line ++ "\n")).2 = some reason := by
      have hfull := Sink.writeText_of_refused hwrite (line ++ "\n")
      rw [if_neg (by simp)] at hfull
      exact congrArg Prod.snd hfull
    simp only [Notice.render, hrefused]
    rfl
  dsimp only
  rw [fail, outcome_bind, hagain]
  exact ⟨rfl, ((h.missed hwrite).tell _).tellPanic _⟩

private theorem Agrees.log_following (s : Settings) (e : Entry) :
    Agrees (following stderr) (log s e : Action (StateM (World F)) Unit) (log s e) := by
  unfold log
  split
  · cases s.insists with
    | true =>
      refine .report_following (Reads.pure ()).agrees fun reason w hwrite h => ?_
      dsimp only
      rw [outcome_abort]
      exact ⟨rfl, (h.missed hwrite).tellPanic _⟩
    | false =>
      intro w w' h
      rw [outcome_bind, outcome_bind, outcome_report, outcome_report, h.heard.writeText]
      cases (w.stderr.writeText (Notice.log e).render).2 with
      | none => exact .inl ⟨rfl, h.tell _⟩
      | some reason => exact .inl ⟨rfl, h.tell _⟩
  · exact (Reads.pure ()).agrees

private theorem carries_following (stderr : Sink) (s : Settings) :
    (following (F := F) stderr).Carries s s where
  codec := rfl
  fuel := rfl
  stdout h := h.stdout
  grants h := congrArg Runtime.grants h.runtime
  withFiles h _ := { h with files := rfl }
  withStdout h _ := { h with stdout := rfl }
  abort := .abort_following
  say := .say_following
  reportFault := .reportFault_following
  log _ := .log_following s _
  logAll h h' := by
    cases h.symm.trans h'
    generalize Array.toList _ = events
    induction events with
    | nil => exact (Reads.pure ()).agrees
    | cons e events ih => exact (Agrees.log_following s e.entry).bind fun _ => ih

end Telling

private theorem World.follows_start (files : F) (stdout stderr : Sink) (runtime : Runtime) :
    Follows stderr (.start files stdout stderr runtime) (.start files stdout .unlimited runtime) where
  files := rfl
  stdout := rfl
  runtime := rfl
  told := rfl
  received := (congrArg Prod.fst (Sink.writeText_empty stderr)).symm
  heard := rfl

section Processes
variable [Volume F] {files : F} {stdout : Sink} {runtime : Runtime}

/-- A command that makes no file keeps the files, whatever its streams take. -/
theorem files_of_performance_of_not_makes (lib : Library) (fuel : Nat) (env : Environment) {arguments : List String}
    (h : makes (request arguments) = false) (w : World F) :
    (performance lib fuel env arguments w).2.files = w.files := by
  rw [performance_eq]
  exact (reads_dispatch (carries_following .unlimited _) h).keeps w

theorem meets_performance (lib : Library) (fuel : Nat) (env : Environment) (arguments : List String) (files : F)
    (stdout stderr : Sink) (runtime : Runtime) :
    (following stderr).Meets files (performance lib fuel env arguments (.start files stdout stderr runtime))
      (performance lib fuel env arguments (.start files stdout .unlimited runtime)) :=
  (carries_following stderr _).meets rfl (World.follows_start files stdout stderr runtime)

/-- A process on any error stream is beside the one on an error stream that takes everything. -/
theorem meets_invocation (lib : Library) (fuel : Nat) (env : Environment) (argv : List (List UInt8)) (files : F)
    (stdout stderr : Sink) (runtime : Runtime) :
    (following stderr).Meets files (invocation lib fuel env argv (.start files stdout stderr runtime))
      (invocation lib fuel env argv (.start files stdout .unlimited runtime)) := by
  cases hwords : words argv with
  | ok arguments =>
    rw [invocation_of_words _ _ _ hwords, invocation_of_words _ _ _ hwords]
    exact meets_performance lib fuel env _ files stdout stderr runtime
  | error p =>
    rw [invocation_of_no_words _ _ _ hwords, invocation_of_no_words _ _ _ hwords]
    exact .inl ⟨rfl, (World.follows_start files stdout stderr runtime).tellPanic p⟩

/-- What has arrived on the error stream is what fits of all that was told. -/
theorem received_of_invocation (lib : Library) (fuel : Nat) (env : Environment) (argv : List (List UInt8)) (files : F)
    (stdout stderr : Sink) (runtime : Runtime) :
    (invocation lib fuel env argv (.start files stdout stderr runtime)).2.Received stderr := by
  rcases meets_invocation lib fuel env argv files stdout stderr runtime with ⟨-, h⟩ | ⟨-, h, -⟩
  · exact h.received
  · exact h.received

/-- A process whose error stream took all that was told has ended as if it took everything. -/
theorem follows_of_takes {lib : Library} {fuel : Nat} {env : Environment} {argv : List (List UInt8)}
    (h : stderr.Takes (errorText (invocation lib fuel env argv (.start files stdout stderr runtime)).2.told)) :
    (invocation lib fuel env argv (.start files stdout stderr runtime)).1 =
        (invocation lib fuel env argv (.start files stdout .unlimited runtime)).1 ∧
      Follows stderr (invocation lib fuel env argv (.start files stdout stderr runtime)).2
        (invocation lib fuel env argv (.start files stdout .unlimited runtime)).2 := by
  rcases meets_invocation lib fuel env argv files stdout stderr runtime with hsame | ⟨-, hmissed, -⟩
  · exact hsame
  · exact absurd h hmissed.refused

end Processes
end PixelCode.Command
