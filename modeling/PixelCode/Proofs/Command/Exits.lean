import PixelCode.Proofs.Command.Recovery

/-! How processes exit, whatever their streams take. A run exits by what the program does and whether its text was taken; a
listing that is not taken aborts the process, and so do arguments that are no texts and an error stream that refuses; every
other command succeeds or fails. -/
namespace PixelCode.Command

open Files (Volume)
open Machine (EndsBy Prints)

variable {F : Type}

def Exit.ofListing : Option String → Exit
  | none => .success
  | some _ => .aborted

section Codes
variable {exit : Exit}

private theorem Exit.code_eq_three_iff : exit.code = 3 ↔ exit = .faulted := by cases exit <;> decide

private theorem Exit.code_eq_aborted_iff :
    exit.code = 101 ↔ exit = .aborted := by
  cases exit <;> decide

private theorem Exit.ofListing_ne_faulted (refusal : Option String) :
    Exit.ofListing refusal ≠ .faulted := by
  cases refusal <;> nofun

private theorem Exit.ofRun_ne_aborted (ran : Option Run) : Exit.ofRun ran ≠ .aborted := by
  unfold Exit.ofRun
  repeat' split
  all_goals nofun

private theorem Exit.ofRun_eq_faulted_iff {r : Run} :
    Exit.ofRun (some r) = .faulted ↔ ∃ f, r.flushed = .faulted f := by
  rw [Exit.ofRun]
  cases r.flushed <;> simp

end Codes

def Runtime.Holds (runtime : Runtime) (size : Nat) : Prop :=
  size < Pixel.wordSize / 2 ∧ ∀ less, less ≤ size → runtime.grants less = true

def CoversFit [Volume F] (codec : ImageCodec) (runtime : Runtime) (files : F) (request : List String) : Prop :=
  ∀ input path rest cover outputs, request = "embed" :: input :: path :: rest →
    cover? codec files path rest = some (cover, outputs) → runtime.Holds (cover.width * cover.height * 4)

private theorem Runtime.Holds.reserved_eq {runtime : Runtime} {size less : Nat}
    (h : runtime.Holds size) (hless : less ≤ size) : reserved runtime less = .ok () := by
  have hsize := h.1
  rw [reserved, if_neg (by omega), if_pos (h.2 less hless)]

/-- Where covers fit in memory there is room for the zeros that fill them. -/
theorem CoversFit.not_exhausts [Volume F] {codec : ImageCodec} {runtime : Runtime} {files : F} {request : List String}
    (h : CoversFit codec runtime files request) (exit : Exit) : ¬ Exhausts codec runtime files request exit := by
  rintro ⟨hcover, hmemory⟩
  next cover size =>
    have hholds := h _ _ _ _ _ rfl hcover
    have hword : Pixel.wordSize / 2 < Pixel.wordSize := by decide
    have harea := (Pixel.sizes_of_fits (Nat.lt_trans hholds.1 hword)).1
    rw [harea, padding, hholds.reserved_eq (by omega)] at hmemory
    split at hmemory <;> cases hmemory

def prints : List String → Bool
  | "run" :: _ | "disassemble" :: _ => true
  | _ => false

section Commands
variable [Volume F] (s : Settings) {arguments : List String} {w : World F}

/-- A command that neither prints nor makes a file succeeds or fails. -/
theorem asks_dispatch {request : List String} (hprints : prints request = false) (hmakes : makes request = false) :
    ∃ answer, Asks (dispatch s request : Action (StateM (World F)) Unit) answer := by
  unfold dispatch
  split
  · exact ⟨_, Asks.sayUsage.bind fun _ => .refuse⟩
  · cases hprints
  · cases hmakes
  · cases hprints
  · cases hmakes
  · cases hmakes
  · exact ⟨_, .sayUsage⟩
  · exact ⟨_, .sayUsage⟩
  · exact ⟨_, .sayUsage⟩
  · exact ⟨_, Asks.tell _ (.tell _ (Asks.sayUsage.bind fun _ => .refuse))⟩

section Loading
variable {input : String} {rest : List String} {f : Program → Action (StateM (World F)) Unit}

private theorem Ends.of_loaded (hw : w.Heard) {p : Program} {exit : Exit} {out : Sink}
    (h : loaded? s.codec w.files (input :: rest) = some p) (hf : ∀ w', w.Beside w' → Ends (f p) w' exit out) :
    Ends (formatArgument input rest >>= fun format => readProgram s input format >>= f) w exit out := by
  obtain ⟨w', hbeside, hdone⟩ := outcome_of_loaded s f hw h
  rw [Ends, hdone]
  exact hf w' hbeside

private theorem Ends.of_not_loaded (hw : w.Heard)
    (h : loaded? s.codec w.files (input :: rest) = none) :
    Ends (formatArgument input rest >>= fun format => readProgram s input format >>= f) w .failure w.stdout := by
  obtain ⟨w', hbeside, hended⟩ := outcome_of_not_loaded s f hw h
  exact ⟨w', hbeside.stdout, .inr hended⟩

end Loading

private theorem ends_run_of_not_loaded (hw : w.Heard)
    (h : loaded? s.codec w.files arguments = none) :
    Ends (run s arguments) w .failure w.stdout := by
  cases arguments with
  | nil => exact Ends.of_unanswered (.tell _ (.tell _ .refuse)) hw rfl
  | cons input rest => exact Ends.of_not_loaded s hw h

private theorem ends_disassemble_of_not_loaded (hw : w.Heard)
    (h : loaded? s.codec w.files arguments = none) :
    Ends (disassemble s arguments) w .failure w.stdout := by
  cases arguments with
  | nil => exact Ends.of_unanswered (.tell _ (.tell _ .refuse)) hw rfl
  | cons input rest => exact Ends.of_not_loaded s hw h

/-- A program is listed if the standard output takes its text, and otherwise the command aborts. -/
theorem ends_disassemble (hw : w.Heard) {p : Program} (h : loaded? s.codec w.files arguments = some p) :
    Ends (disassemble s arguments) w (Exit.ofListing (w.stdout.writeText (Assembly.disassemble p)).2)
      (w.stdout.writeText (Assembly.disassemble p)).1 := by
  cases arguments with
  | nil => cases h
  | cons input rest =>
    refine Ends.of_loaded s hw h fun w₁ hbeside => Ends.of_lift ?_
    rw [show (Host.stdout : StateM (World F) Sink) w₁ = (w.stdout, w₁) from hbeside.stdout ▸ rfl]
    cases w.stdout.writeText (Assembly.disassemble p) with
    | mk out refusal =>
      refine Ends.of_lift ?_
      cases refusal with
      | none => exact ⟨_, rfl, .inl ⟨rfl, rfl⟩⟩
      | some reason =>
        have hheard : ({ w₁ with stdout := out } : World F).Heard := hbeside.heard
        exact ⟨_, (hheard.beside_tellPanic _).stdout, .inr (outcome_abort _ _)⟩

/-- A run that is refused fails with a message, which is the last that is told. -/
theorem outcome_conclude_of_refused {r : Run} {reason : String} (h : r.flushed = .refused reason) (hw : w.Heard) :
    ∃ w', outcome (conclude s (some r)) w = (.error .failure, w') ∧
      w'.told.back? = some (.text ("error: " ++ Ending.refusalMessage reason ++ "\n")) := by
  obtain ⟨w₁, -, hbeside, hlogged⟩ := (Asks.logAll s r.trace.events.toList).answered hw rfl
  have hheard : ({ w₁ with stdout := r.out } : World F).Heard := hbeside.heard
  refine ⟨World.tell { w₁ with stdout := r.out } _, ?_, Array.back?_push⟩
  rw [conclude, outcome_bind, hlogged]
  dsimp only
  rw [outcome_bind, outcome_lift, h]
  exact outcome_fail hheard _

end Commands

section Heard
variable [Volume F] {lib : Library} {fuel : Nat} {env : Environment} {arguments rest : List String} {w : World F}
  {p : Program}

private theorem exit_of_run (hw : w.Heard) (hrequest : request arguments = "run" :: rest)
    (hloaded : loaded? lib.codec w.files rest = some p) :
    (performance lib fuel env arguments w).1 =
      Exit.ofRun ((settings lib fuel env arguments).ran p w.stdout) := by
  have hends := ends_run (settings lib fuel env arguments) hw hloaded
  exact (performance_of_ends (by rw [hrequest]; exact hends)).1

private theorem exit_of_disassemble (hw : w.Heard)
    (hrequest : request arguments = "disassemble" :: rest)
    (hloaded : loaded? lib.codec w.files rest = some p) :
    (performance lib fuel env arguments w).1 = Exit.ofListing (w.stdout.writeText (Assembly.disassemble p)).2 := by
  have hends := ends_disassemble (settings lib fuel env arguments) hw hloaded
  exact (performance_of_ends (by rw [hrequest]; exact hends)).1

/-- Only a program that was loaded can be the reason of another exit than success or failure. -/
theorem loaded_or_exit (lib : Library) (fuel : Nat) (env : Environment) (arguments : List String) (hw : w.Heard)
    (hfit : CoversFit lib.codec w.runtime w.files (request arguments)) :
    (∃ rest p, request arguments = "run" :: rest ∧ loaded? lib.codec w.files rest = some p) ∨
      (∃ rest p, request arguments = "disassemble" :: rest ∧ loaded? lib.codec w.files rest = some p) ∨
      (performance lib fuel env arguments w).1 = .success ∨ (performance lib fuel env arguments w).1 = .failure := by
  cases hprints : prints (request arguments) with
  | false =>
    refine .inr (.inr ?_)
    cases hmakes : makes (request arguments) with
    | false =>
      obtain ⟨answer, hasks⟩ := asks_dispatch (F := F) (settings lib fuel env arguments) hprints hmakes
      cases hanswer : answer w.files with
      | some _ =>
        obtain ⟨w', -, -, houtcome⟩ := hasks.answered hw hanswer
        exact .inl (congrArg Prod.fst (performance_of_outcome houtcome))
      | none =>
        obtain ⟨w', -, -, houtcome⟩ := hasks.unanswered hw hanswer
        exact .inr (congrArg Prod.fst (performance_of_outcome houtcome))
    | true =>
      cases hput : put w.files (product lib.codec w.runtime w.files (request arguments)) with
      | ok written => exact .inl (performance_of_put lib fuel env hw hmakes hput).1
      | error exit =>
        rcases failsOr_put lib.codec w.runtime w.files (request arguments) hput with rfl | hexhausts
        · exact .inr (performance_of_no_put lib fuel env hw hmakes hput).1
        · exact absurd hexhausts (hfit.not_exhausts exit)
  | true =>
    unfold prints at hprints
    split at hprints
    next rest hrequest =>
      cases hloaded : loaded? lib.codec w.files rest with
      | some p => exact .inl ⟨rest, p, hrequest, hloaded⟩
      | none =>
        have hends := ends_run_of_not_loaded (settings lib fuel env arguments) hw hloaded
        exact .inr (.inr (.inr (performance_of_ends (by rw [hrequest]; exact hends)).1))
    next rest hrequest =>
      cases hloaded : loaded? lib.codec w.files rest with
      | some p => exact .inr (.inl ⟨rest, p, hrequest, hloaded⟩)
      | none =>
        have hends := ends_disassemble_of_not_loaded (settings lib fuel env arguments) hw hloaded
        exact .inr (.inr (.inr (performance_of_ends (by rw [hrequest]; exact hends)).1))
    next => cases hprints

private theorem exit_eq_aborted_iff (hw : w.Heard)
    (hfit : CoversFit lib.codec w.runtime w.files (request arguments)) :
    (performance lib fuel env arguments w).1 = .aborted ↔
      ∃ rest p, request arguments = "disassemble" :: rest ∧ loaded? lib.codec w.files rest = some p ∧
        ¬ w.stdout.Takes (Assembly.disassemble p) := by
  constructor
  · intro hexit
    rcases loaded_or_exit lib fuel env arguments hw hfit with
      ⟨rest, p, hrequest, hloaded⟩ | ⟨rest, p, hrequest, hloaded⟩ | hsuccess | hfailure
    · rw [exit_of_run hw hrequest hloaded] at hexit
      exact absurd hexit (Exit.ofRun_ne_aborted _)
    · refine ⟨rest, p, hrequest, hloaded, fun htakes => ?_⟩
      rw [exit_of_disassemble hw hrequest hloaded, htakes] at hexit
      cases hexit
    · cases hsuccess.symm.trans hexit
    · cases hfailure.symm.trans hexit
  · rintro ⟨rest, p, hrequest, hloaded, hrefuses⟩
    obtain ⟨reason, hreason⟩ := Option.ne_none_iff_exists'.1 hrefuses
    rw [exit_of_disassemble hw hrequest hloaded, hreason]
    rfl

/-- The program of a request to run one ends in a fault, and the standard output takes the text printed before it. -/
def RunFaults (codec : ImageCodec) (files : F) (stdout : Sink) (request : List String) : Prop :=
  ∃ rest p, request = "run" :: rest ∧ loaded? codec files rest = some p ∧
    (∃ f m text, EndsBy p (.faulted f) m text ∧ stdout.Takes text) ∧ stdout.flushFailure = none

def RunEnds (codec : ImageCodec) (fuel : Nat) (files : F) (stdout : Sink) (request : List String) : Prop :=
  ∀ rest p, request = "run" :: rest → loaded? codec files rest = some p →
    ∃ r, Machine.initial.run p fuel stdout (.start none) = some r

theorem RunEnds.exists_run (hends : RunEnds lib.codec fuel w.files w.stdout (request arguments)) (env : Environment)
    (hrequest : request arguments = "run" :: rest) (hloaded : loaded? lib.codec w.files rest = some p) :
    ∃ r, (settings lib fuel env arguments).ran p w.stdout = some r :=
  Machine.exists_run (hends rest p hrequest hloaded) _

private theorem exit_eq_faulted_iff (hw : w.Heard)
    (hfit : CoversFit lib.codec w.runtime w.files (request arguments))
    (hends : RunEnds lib.codec fuel w.files w.stdout (request arguments)) :
    (performance lib fuel env arguments w).1 = .faulted ↔
      RunFaults lib.codec w.files w.stdout (request arguments) := by
  have hrun {rest : List String} {p : Program} (hrequest : request arguments = "run" :: rest)
      (hloaded : loaded? lib.codec w.files rest = some p) :
      (performance lib fuel env arguments w).1 = .faulted ↔
        (∃ f m text, EndsBy p (.faulted f) m text ∧ w.stdout.Takes text) ∧ w.stdout.flushFailure = none := by
    obtain ⟨r, hr⟩ := hends.exists_run env hrequest hloaded
    rw [exit_of_run hw hrequest hloaded, hr, Exit.ofRun_eq_faulted_iff, Machine.flushed_eq_faulted_iff hr]
  constructor
  · intro hexit
    rcases loaded_or_exit lib fuel env arguments hw hfit with
      ⟨rest, p, hrequest, hloaded⟩ | ⟨rest, p, hrequest, hloaded⟩ | hsuccess | hfailure
    · exact ⟨rest, p, hrequest, hloaded, (hrun hrequest hloaded).1 hexit⟩
    · rw [exit_of_disassemble hw hrequest hloaded] at hexit
      exact absurd hexit (Exit.ofListing_ne_faulted _)
    · cases hsuccess.symm.trans hexit
    · cases hfailure.symm.trans hexit
  · rintro ⟨rest, p, hrequest, hloaded, hfaults⟩
    exact (hrun hrequest hloaded).2 hfaults

/-- With covers that fit in memory and runs that end, a command ends in one of four ways. -/
theorem exit_cases (hw : w.Heard) (hfit : CoversFit lib.codec w.runtime w.files (request arguments))
    (hends : RunEnds lib.codec fuel w.files w.stdout (request arguments)) :
    let exit := (performance lib fuel env arguments w).1
    exit = .success ∨ exit = .failure ∨ exit = .faulted ∨ exit = .aborted := by
  intro exit
  rcases loaded_or_exit lib fuel env arguments hw hfit with
    ⟨rest, p, hrequest, hloaded⟩ | ⟨rest, p, hrequest, hloaded⟩ | hsuccess | hfailure
  · obtain ⟨r, hr⟩ := hends.exists_run env hrequest hloaded
    rw [show exit = _ from exit_of_run hw hrequest hloaded, hr, Exit.ofRun]
    cases r.flushed <;> simp
  · rw [show exit = _ from exit_of_disassemble hw hrequest hloaded]
    cases (w.stdout.writeText (Assembly.disassemble p)).2 <;> simp [Exit.ofListing]
  · exact .inl hsuccess
  · exact .inr (.inl hfailure)

/-- If the standard output refuses what a run prints, the command fails, and the last that it tells is an error. -/
theorem failure_of_refused (hw : w.Heard) (hends : RunEnds lib.codec fuel w.files w.stdout (request arguments))
    (hrequest : request arguments = "run" :: rest) (hloaded : loaded? lib.codec w.files rest = some p)
    (hrefused : (∃ text, Prints p text ∧ ¬ w.stdout.Takes text) ∨ w.stdout.flushFailure ≠ none) :
    (performance lib fuel env arguments w).1 = .failure ∧
      ∃ message, (performance lib fuel env arguments w).2.told.back? = some (.text ("error: " ++ message ++ "\n")) := by
  obtain ⟨r, hr⟩ := hends.exists_run env hrequest hloaded
  obtain ⟨reason, hreason⟩ := (Machine.flushed_eq_refused_iff hr).2 hrefused
  obtain ⟨w₁, hbeside, hrun⟩ := outcome_run (settings lib fuel env arguments) hw hloaded
  obtain ⟨w₂, hfails, hlast⟩ :=
    outcome_conclude_of_refused (settings lib fuel env arguments) hreason hbeside.heard
  have hdone : outcome (dispatch (settings lib fuel env arguments) (request arguments)) w = (.error .failure, w₂) := by
    rw [hrequest, ← hfails, ← hr]
    exact hrun
  rw [performance_of_outcome hdone]
  exact ⟨rfl, _, hlast⟩

end Heard

section Processes
variable [Volume F]

private theorem words_eq_error_iff {argv : List (List UInt8)} :
    (∃ p, words argv = .error p) ↔ ∃ bytes ∈ argv, decode? bytes = none := by
  induction argv with
  | nil => simp [words]
  | cons bytes argv ih =>
    rw [words]
    cases hword : decode? bytes with
    | none => simp [hword]
    | some word => simp [hword, map_eq_error_iff, ih]

private theorem requested_of_words {argv : List (List UInt8)} {arguments : List String}
    (h : words argv = .ok arguments) : requested argv = .ok (request (arguments.drop 1)) := by
  rw [requested, h]
  rfl

/-- A process on any error stream exits as on one that takes everything, or it is aborted. -/
theorem exit_eq_or_aborted (lib : Library) (fuel : Nat) (env : Environment) (argv : List (List UInt8)) (files : F)
    (stdout stderr : Sink) (runtime : Runtime) :
    (invocation lib fuel env argv (.start files stdout stderr runtime)).1 =
        (invocation lib fuel env argv (.start files stdout .unlimited runtime)).1 ∨
      (invocation lib fuel env argv (.start files stdout stderr runtime)).1 = .aborted := by
  rcases meets_invocation lib fuel env argv files stdout stderr runtime with ⟨hexit, -⟩ | ⟨haborted, -⟩
  · exact .inl hexit
  · exact .inr haborted

/-- With covers that fit in memory and runs that end, a process exits with 0, 1, 3 or 101. It exits with 3 only if a program
was loaded and run that ends in a fault, and the standard output took its text; and always then if the error stream takes
what is told. In this case, if the standard output refuses what a run prints, the process exits with 1 and the last that it
tells is an error; and it exits with 101 exactly if an argument is no text or the standard output refuses a listing. -/
theorem exit_code_of_invocation (lib : Library) (fuel : Nat) (env : Environment) (argv : List (List UInt8)) (files : F)
    (stdout stderr : Sink) (runtime : Runtime)
    (hends : ∀ request, requested argv = .ok request → RunEnds lib.codec fuel files stdout request)
    (hfit : ∀ request, requested argv = .ok request → CoversFit lib.codec runtime files request) :
    let done := invocation lib fuel env argv (.start files stdout stderr runtime)
    (done.1.code = 0 ∨ done.1.code = 1 ∨ done.1.code = 3 ∨ done.1.code = 101) ∧
      (done.1.code = 3 → ∃ request, requested argv = .ok request ∧ RunFaults lib.codec files stdout request) ∧
      (stderr.Takes (errorText done.2.told) →
        (done.1.code = 3 ↔ ∃ request, requested argv = .ok request ∧ RunFaults lib.codec files stdout request) ∧
        (∀ rest p, requested argv = .ok ("run" :: rest) → loaded? lib.codec files rest = some p →
          (∃ text, Prints p text ∧ ¬ stdout.Takes text) ∨ stdout.flushFailure ≠ none →
          done.1.code = 1 ∧ ∃ message, done.2.told.back? = some (.text ("error: " ++ message ++ "\n"))) ∧
        (done.1.code = 101 ↔ (∃ bytes ∈ argv, decode? bytes = none) ∨
          ∃ rest p, requested argv = .ok ("disassemble" :: rest) ∧ loaded? lib.codec files rest = some p ∧
            ¬ stdout.Takes (Assembly.disassemble p))) := by
  intro done
  cases hwords : words argv with
  | error p =>
    have haborted : done.1.code = 101 := by
      rw [show done = _ from invocation_of_no_words _ _ _ hwords _]
      rfl
    have hnone (request : List String) : requested argv ≠ .ok request := by
      rw [requested, hwords]
      nofun
    have hthree : done.1.code ≠ 3 := by
      rw [haborted]
      decide
    refine ⟨.inr (.inr (.inr haborted)), fun hcode => absurd hcode hthree, fun _ => ⟨?_, ?_, ?_⟩⟩
    · exact ⟨fun hcode => absurd hcode hthree, fun ⟨request, hrequest, _⟩ => absurd hrequest (hnone request)⟩
    · exact fun rest p hrequest => absurd hrequest (hnone _)
    · exact ⟨fun _ => .inl (words_eq_error_iff.1 ⟨p, hwords⟩), fun _ => haborted⟩
  | ok arguments =>
    have hrequested := requested_of_words hwords
    have hends := hends _ hrequested
    have hfit := hfit _ hrequested
    have hheard : (World.start files stdout .unlimited runtime).Heard := rfl
    have hfaulted : (performance lib fuel env (arguments.drop 1) (.start files stdout .unlimited runtime)).1 = .faulted ↔
        RunFaults lib.codec files stdout (request (arguments.drop 1)) := exit_eq_faulted_iff hheard hfit hends
    simp only [hrequested, Except.ok.injEq, exists_eq_left']
    refine ⟨?_, fun hcode => ?_, fun htakes => ?_⟩
    · have hexit : done.1 = .success ∨ done.1 = .failure ∨ done.1 = .faulted ∨ done.1 = .aborted := by
        rcases exit_eq_or_aborted lib fuel env argv files stdout stderr runtime with hsame | haborted
        · rw [show done.1 = _ from hsame, invocation_of_words _ _ _ hwords]
          exact exit_cases hheard hfit hends
        · exact .inr (.inr (.inr haborted))
      rcases hexit with hexit | hexit | hexit | hexit <;> simp [hexit, Exit.code]
    · have hexit := Exit.code_eq_three_iff.1 hcode
      rcases exit_eq_or_aborted lib fuel env argv files stdout stderr runtime with hsame | haborted
      · rw [invocation_of_words _ _ _ hwords (.start files stdout .unlimited runtime)] at hsame
        exact hfaulted.1 (hsame.symm.trans hexit)
      · cases haborted.symm.trans hexit
    · obtain ⟨hsame, hfollows⟩ : done.1 = _ ∧ Follows stderr done.2 _ := follows_of_takes htakes
      rw [invocation_of_words _ _ _ hwords (.start files stdout .unlimited runtime)] at hsame hfollows
      rw [hsame, hfollows.told, Exit.code_eq_three_iff, Exit.code_eq_aborted_iff]
      refine ⟨hfaulted, fun rest p hrequest hloaded hrefused => ?_, ?_⟩
      · obtain ⟨hfailure, hlast⟩ := failure_of_refused hheard hends hrequest hloaded hrefused
        exact ⟨congrArg Exit.code hfailure, hlast⟩
      · have htexts : ¬ ∃ bytes ∈ argv, decode? bytes = none := by
          rw [← words_eq_error_iff, hwords]
          nofun
        rw [or_iff_right htexts]
        exact exit_eq_aborted_iff hheard hfit

def letterThenFault : List UInt8 := [0x01, 65, 0x61, 0x02]

def letterThenFaultStore : Files.Store := ⟨[(.ofNames ["p.chb".toList], .file letterThenFault)]⟩

def letterThenFaultProcess (arguments : List String) (stdout stderr : Sink) : Exit × World Files.Store :=
  invocation ⟨Png.codec, .byLevel⟩ 8 ⟨none, none⟩ (("chroma" :: arguments).map (·.toUTF8.data.toList))
    (.start letterThenFaultStore stdout stderr .plain)

def letterThenFaultRun : Sink → Sink → Exit × World Files.Store :=
  letterThenFaultProcess ["-v", "run", "p.chb"]

def letterThenFaultListing : Exit × World Files.Store :=
  letterThenFaultProcess ["disassemble", "p.chb"] fullDevice .unlimited

def oneByte : Sink := ⟨#[], some 1, noSpace, none⟩

private theorem letterThenFault_evaluated :
    loaded? Png.codec letterThenFaultStore ["p.chb"] = some (.ofList letterThenFault) ∧
      (letterThenFaultRun oneByte .unlimited).1.code = 3 ∧
      (letterThenFaultRun oneByte fullDevice).1.code = 101 ∧
      letterThenFaultListing.1.code = 101 ∧
      letterThenFaultListing.2.told = #[.text ("failed printing to stdout: " ++ noSpace ++ "\n")] := by
  decide +kernel

private theorem letterThenFault_ends {stdout : Sink}
    (h : (Machine.initial.run (.ofList letterThenFault) 8 stdout (.start none)).isSome = true)
    (request : List String)
    (hrequest : requested (["chroma", "-v", "run", "p.chb"].map (·.toUTF8.data.toList)) = .ok request) :
    RunEnds Png.codec 8 letterThenFaultStore stdout request := by
  intro rest p hrun hloaded
  cases (show .ok ["run", "p.chb"] = Except.ok _ from hrequest)
  cases hrun
  cases letterThenFault_evaluated.1.symm.trans hloaded
  exact Option.isSome_iff_exists.1 h

private theorem letterThenFault_fits (request : List String)
    (hrequest : requested (["chroma", "-v", "run", "p.chb"].map (·.toUTF8.data.toList)) = .ok request) :
    CoversFit Png.codec .plain letterThenFaultStore request := by
  intro input path rest cover outputs hembed
  cases (show .ok ["run", "p.chb"] = Except.ok _ from hrequest)
  simp at hembed

private theorem letterThenFault_refused :
    (∃ text, Prints (.ofList letterThenFault) text ∧ ¬ fullDevice.Takes text) ∨ fullDevice.flushFailure ≠ none := by
  have hrun : (Machine.initial.run (.ofList letterThenFault) 8 fullDevice (.start none)).any
      (fun r => Exit.ofRun (some r) == .failure) = true := rfl
  obtain ⟨r, hr, hfailure⟩ := (Option.any_eq_true _ _).1 hrun
  refine (Machine.flushed_eq_refused_iff hr).1 ?_
  rw [beq_iff_eq, Exit.ofRun] at hfailure
  cases hflushed : r.flushed with
  | refused reason => exact ⟨reason, rfl⟩
  | finished => simp [hflushed] at hfailure
  | faulted f => simp [hflushed] at hfailure

/-- With room for the letter the fault is the reason of the exit, without room it is the refusal, and where the report of
the fault is refused the process is aborted. -/
theorem exit_code_of_invocation_letterThenFault :
    ((letterThenFaultRun oneByte .unlimited).1.code = 3 ∧
        ∃ request, RunFaults Png.codec letterThenFaultStore oneByte request) ∧
      ((letterThenFaultRun fullDevice .unlimited).1.code = 1 ∧
        ∃ message, (letterThenFaultRun fullDevice .unlimited).2.told.back? =
          some (.text ("error: " ++ message ++ "\n"))) ∧
      (letterThenFaultRun oneByte fullDevice).1.code = 101 := by
  obtain ⟨hloaded, hcode, haborted, -⟩ := letterThenFault_evaluated
  obtain ⟨-, hfault, -⟩ := exit_code_of_invocation ⟨Png.codec, .byLevel⟩ 8 ⟨none, none⟩
    (["chroma", "-v", "run", "p.chb"].map (·.toUTF8.data.toList)) letterThenFaultStore oneByte .unlimited .plain
    (letterThenFault_ends rfl) letterThenFault_fits
  obtain ⟨-, -, hheard⟩ := exit_code_of_invocation ⟨Png.codec, .byLevel⟩ 8 ⟨none, none⟩
    (["chroma", "-v", "run", "p.chb"].map (·.toUTF8.data.toList)) letterThenFaultStore fullDevice .unlimited .plain
    (letterThenFault_ends rfl) letterThenFault_fits
  obtain ⟨request, -, hfaults⟩ := hfault hcode
  obtain ⟨-, hrefused, -⟩ := hheard (congrArg Prod.snd (Sink.writeText_of_room_none rfl _))
  exact ⟨⟨hcode, request, hfaults⟩, hrefused ["p.chb"] _ rfl hloaded letterThenFault_refused, haborted⟩

/-- A listing that is refused ends the process in a way of its own, without a message of error. -/
theorem exit_code_of_refused_listing :
    letterThenFaultListing.1.code = 101 ∧
      letterThenFaultListing.2.told = #[.text ("failed printing to stdout: " ++ noSpace ++ "\n")] :=
  letterThenFault_evaluated.2.2.2

end Processes
end PixelCode.Command
