import Mathlib.Logic.Relation
import PixelCode.Png.Codec
import PixelCode.Proofs.Command.Reception

/-! Logging interferes with nothing. Processes that differ only in what they log are carried out side by side: each
action finds the same files and the same standard output, comes to the same result and tells the same. -/
namespace PixelCode.Command

open Files (Volume)

variable {F : Type} {report report' : Panic → List String}

def panicNotices (report : Panic → List String) (p : Panic) : List Notice :=
  (report p).map fun line => .text (line ++ "\n")

/-- Notices that are the same, but for how panics are reported. -/
inductive SameBut (report report' : Panic → List String) : List Notice → List Notice → Prop
  | nil : SameBut report report' [] []
  | tell {told told' : List Notice} (h : SameBut report report' told told') (n : Notice) :
    SameBut report report' (told ++ [n]) (told' ++ [n])
  | panic {told told' : List Notice} (h : SameBut report report' told told') (p : Panic) :
    SameBut report report' (told ++ panicNotices report p) (told' ++ panicNotices report' p)

/-- Worlds that differ at most in what was logged and how panics are reported, and were told of in whole lines that were
heard. -/
structure Alike (report report' : Panic → List String) (w w' : World F) : Prop where
  files : w.files = w'.files
  stdout : w.stdout = w'.stdout
  grants : w.runtime.grants = w'.runtime.grants
  report_eq : w.runtime.report = report
  report_eq' : w'.runtime.report = report'
  told : SameBut report report' (w.told.toList.filter (! ·.isLog)) (w'.told.toList.filter (! ·.isLog))
  whole : ∀ n ∈ w.told.toList, n.Whole
  whole' : ∀ n ∈ w'.told.toList, n.Whole
  heard : w.Heard
  heard' : w'.Heard

theorem SameBut.symm {told told' : List Notice}
    (h : SameBut report report' told told') : SameBut report' report told' told := by
  induction h with
  | nil => exact .nil
  | tell _ n ih => exact .tell ih n
  | panic _ p ih => exact .panic ih p

private theorem SameBut.eq {told told' : List Notice} (h : SameBut report report told told') :
    told = told' := by
  induction h with
  | nil => rfl
  | tell _ n ih => rw [ih]
  | panic _ p ih => rw [ih]

def Logs (a : Action (StateM (World F)) Unit) : Prop :=
  ∀ ⦃report report' w w'⦄, Alike report report' w w' → (outcome a w).1 = .ok () ∧ Alike report report' (outcome a w).2 w'

def logging (report report' : Panic → List String) : Pairing F where
  related := Alike report report'
  broken _ := False
  files h := h.files

section Alike
variable {w w' : World F}

theorem Alike.symm (h : Alike report report' w w') : Alike report' report w' w :=
  ⟨h.files.symm, h.stdout.symm, h.grants.symm, h.report_eq', h.report_eq, h.told.symm, h.whole', h.whole, h.heard', h.heard⟩

private theorem World.whole_tell {notice : Notice} (h : ∀ n ∈ w.told.toList, n.Whole)
    (hnotice : notice.Whole) : ∀ n ∈ (w.tell notice).told.toList, n.Whole := by
  simp only [World.tell, Array.toList_push, List.mem_append, List.mem_singleton]
  rintro n (hn | rfl)
  · exact h n hn
  · exact hnotice

private theorem World.toList_tellPanic (w : World F) (p : Panic) :
    (w.tellPanic p).told.toList = w.told.toList ++ panicNotices w.runtime.report p := by
  rw [World.tellPanic, panicNotices]
  generalize w.runtime.report p = lines
  induction lines generalizing w with
  | nil => simp
  | cons line lines ih =>
    rw [List.foldl_cons, ih]
    simp [World.tell]

private theorem World.filter_tellPanic (w : World F) (p : Panic) :
    (w.tellPanic p).told.toList.filter (! ·.isLog) =
      w.told.toList.filter (! ·.isLog) ++ panicNotices w.runtime.report p := by
  rw [w.toList_tellPanic, List.filter_append]
  congr 1
  rw [List.filter_eq_self]
  intro n hn
  obtain ⟨line, -, rfl⟩ := List.mem_map.1 hn
  rfl

private theorem World.whole_tellPanic (h : ∀ n ∈ w.told.toList, n.Whole) (p : Panic) :
    ∀ n ∈ (w.tellPanic p).told.toList, n.Whole := by
  rw [w.toList_tellPanic]
  intro n hn
  rcases List.mem_append.1 hn with hn | hn
  · exact h n hn
  · obtain ⟨line, -, rfl⟩ := List.mem_map.1 hn
    exact ⟨line, rfl⟩

theorem Alike.log (h : Alike report report' w w') {e : Entry} (he : OnLine e.line) :
    Alike report report' (w.tell (.log e)) w' where
  files := h.files
  stdout := h.stdout
  grants := h.grants
  report_eq := h.report_eq
  report_eq' := h.report_eq'
  told := by simpa [World.tell, Notice.isLog] using h.told
  whole := World.whole_tell h.whole he
  whole' := h.whole'
  heard := (h.heard.beside_tell _).heard
  heard' := h.heard'

theorem Alike.tell (h : Alike report report' w w') (line : String) :
    Alike report report' (w.tell (.text (line ++ "\n"))) (w'.tell (.text (line ++ "\n"))) where
  files := h.files
  stdout := h.stdout
  grants := h.grants
  report_eq := h.report_eq
  report_eq' := h.report_eq'
  told := by simpa [World.tell, Notice.isLog] using h.told.tell (.text (line ++ "\n"))
  whole := World.whole_tell h.whole ⟨line, rfl⟩
  whole' := World.whole_tell h.whole' ⟨line, rfl⟩
  heard := (h.heard.beside_tell _).heard
  heard' := (h.heard'.beside_tell _).heard

theorem Alike.tellPanic (h : Alike report report' w w') (p : Panic) :
    Alike report report' (w.tellPanic p) (w'.tellPanic p) where
  files := by rw [w.files_tellPanic, w'.files_tellPanic, h.files]
  stdout := by rw [(h.heard.beside_tellPanic p).stdout, (h.heard'.beside_tellPanic p).stdout, h.stdout]
  grants := by rw [(h.heard.beside_tellPanic p).runtime, (h.heard'.beside_tellPanic p).runtime, h.grants]
  report_eq := by rw [(h.heard.beside_tellPanic p).runtime, h.report_eq]
  report_eq' := by rw [(h.heard'.beside_tellPanic p).runtime, h.report_eq']
  told := by
    rw [World.filter_tellPanic, World.filter_tellPanic, h.report_eq, h.report_eq']
    exact h.told.panic p
  whole := World.whole_tellPanic h.whole p
  whole' := World.whole_tellPanic h.whole' p
  heard := (h.heard.beside_tellPanic p).heard
  heard' := (h.heard'.beside_tellPanic p).heard

end Alike

section Logs
variable {a a' : Action (StateM (World F)) Unit}

private theorem Agrees.of_logs (h : Logs a) (h' : Logs a') :
    Agrees (logging report report') a a' := by
  intro w w' hw
  obtain ⟨hok, hleft⟩ := h hw
  obtain ⟨hok', hleft'⟩ := h' hleft.symm
  exact .inl ⟨hok.trans hok'.symm, hleft'.symm⟩

theorem Logs.pure : Logs (Pure.pure () : Action (StateM (World F)) Unit) := fun _ _ _ _ hw => ⟨rfl, hw⟩

theorem Logs.bind {f : Unit → Action (StateM (World F)) Unit} (ha : Logs a) (hf : Logs (f ())) : Logs (a >>= f) := by
  intro report report' w w' hw
  obtain ⟨hok, hleft⟩ := ha hw
  rw [outcome_bind_of_ok hok]
  exact hf hleft

variable [Volume F]

theorem Logs.log (s : Settings) {e : Entry} (he : OnLine e.line) :
    Logs (log s e : Action (StateM (World F)) Unit) := by
  intro report report' w w' hw
  rw [outcome_log hw.heard]
  split
  · exact ⟨rfl, hw.log he⟩
  · exact ⟨rfl, hw⟩

/-- However many events are logged, and whichever. -/
theorem Logs.logAll (s : Settings) (events : List Event) :
    Logs (events.forM fun e => Command.log s e.entry : Action (StateM (World F)) Unit) := by
  induction events with
  | nil => exact .pure
  | cons e events ih => exact (Logs.log s e.onLine).bind ih

private theorem carries_logging {s s' : Settings} (hcodec : s.codec = s'.codec)
    (hfuel : s.fuel = s'.fuel) :
    (logging (F := F) report report').Carries s s' where
  codec := hcodec
  fuel := hfuel
  stdout h := h.stdout
  grants h := h.grants
  withFiles h _ := { h with files := rfl }
  withStdout h _ := { h with stdout := rfl }
  abort p _ _ h := .inl ⟨rfl, h.tellPanic p⟩
  say line w w' h := by
    rw [outcome_say h.heard, outcome_say h.heard']
    exact .inl ⟨rfl, h.tell line⟩
  reportFault f w w' h := by
    rw [outcome_reportFault h.heard, outcome_reportFault h.heard']
    exact .inl ⟨rfl, h.tell f.message⟩
  log he := .of_logs (.log s he) (.log s' he)
  logAll _ _ := .of_logs (.logAll s _) (.logAll s' _)

end Logs

section Lines

/-- The second list of arguments has one word more that asks for debug events. -/
def Inserts (arguments more : List (List UInt8)) : Prop :=
  ∃ before after word, (word = "--verbose" ∨ word = "-v") ∧ arguments = before ++ after ∧
    more = before ++ word.toUTF8.data.toList :: after

private theorem words_append (before after : List (List UInt8)) :
    words (before ++ after) = (words before >>= fun first => (words after).map (first ++ ·)) := by
  induction before with
  | nil =>
    cases h : words after <;> simp [words, h, Except.map, bind, Except.bind]
  | cons bytes before ih =>
    rw [List.cons_append, words, words, ih]
    cases decode? bytes with
    | none => rfl
    | some word =>
      cases words before with
      | error p => rfl
      | ok first => cases words after <;> rfl

private theorem Inserts.words_eq {arguments more : List (List UInt8)} (h : Inserts arguments more) :
    (words arguments).map request = (words more).map request := by
  obtain ⟨before, after, word, hword, rfl, rfl⟩ := h
  have hasks : isVerbosity word = true := by
    rcases hword with rfl | rfl <;> rfl
  have hdecode : decode? word.toUTF8.data.toList = some word := by
    rcases hword with rfl | rfl <;> rfl
  rw [words_append, words_append, words, hdecode]
  cases words before with
  | error p => rfl
  | ok first =>
    cases words after with
    | error p => rfl
    | ok rest => simp [bind, Except.bind, Except.map, request, hasks]

private theorem words_eq_of_eqvGen {arguments arguments' : List (List UInt8)}
    (h : Relation.EqvGen Inserts arguments arguments') :
    (words arguments).map request = (words arguments').map request := by
  induction h with
  | rel _ _ h => exact h.words_eq
  | refl => rfl
  | symm _ _ _ ih => exact ih.symm
  | trans _ _ _ _ _ ih ih' => exact ih.trans ih'

/-- The lines that are left when those of the log are deleted are the lines of what else was told. -/
theorem filter_errorLines (told : Array Notice) :
    (errorLines told).filter (! ·.1) = (told.toList.filter (! ·.isLog)).flatMap Notice.lines := by
  rw [errorLines]
  induction told.toList with
  | nil => rfl
  | cons n notices ih =>
    rw [List.flatMap_cons, List.filter_append, ih]
    cases n with
    | log e => rfl
    | text s =>
      have hkept : (Notice.text s).lines.filter (! ·.1) = (Notice.text s).lines := by
        rw [Notice.lines, List.filter_map]
        exact congrArg _ (List.filter_eq_self.2 fun _ _ => rfl)
      rw [hkept, List.filter_cons_of_pos rfl, List.flatMap_cons]

end Lines

section Processes
variable [Volume F]

/-- Processes with the same request are carried out alike. -/
theorem alike_invocation (lib : Library) (fuel : Nat) (env env' : Environment) (program : List UInt8)
    {arguments arguments' : List (List UInt8)}
    (h : (words arguments).map request = (words arguments').map request) {w w' : World F} (hw : Alike report report' w w') :
    let done := invocation lib fuel env (program :: arguments) w
    let done' := invocation lib fuel env' (program :: arguments') w'
    done.1 = done'.1 ∧ Alike report report' done.2 done'.2 := by
  intro done done'
  have hpanic {p : Panic} (hwords : words (program :: arguments) = .error p)
      (hwords' : words (program :: arguments') = .error p) : done.1 = done'.1 ∧ Alike report report' done.2 done'.2 := by
    rw [show done = _ from invocation_of_no_words _ _ _ hwords w,
      show done' = _ from invocation_of_no_words _ _ _ hwords' w']
    exact ⟨rfl, hw.tellPanic p⟩
  cases hname : decode? program with
  | none => exact hpanic (by rw [words, hname]) (by rw [words, hname])
  | some name =>
    cases hwords : words arguments with
    | error p =>
      have hwords' : words arguments' = .error p := map_eq_error_iff.1 (h.symm.trans (by rw [hwords]; rfl))
      exact hpanic (by rw [words, hname, hwords]; rfl) (by rw [words, hname, hwords']; rfl)
    | ok given =>
      rw [hwords] at h
      obtain ⟨given', hwords', hrequest⟩ := map_eq_ok_iff.1 h.symm
      rw [show done = _ from invocation_of_words _ _ _ (by rw [words, hname, hwords]; rfl) w,
        show done' = _ from invocation_of_words _ _ _ (by rw [words, hname, hwords']; rfl) w']
      have hcarries : (logging (F := F) report report').Carries (settings lib fuel env given)
          (settings lib fuel env' given') := carries_logging rfl rfl
      rcases hcarries.meets hrequest.symm hw with hsame | ⟨-, hbroken, -⟩
      · exact hsame
      · exact hbroken.elim

/-- Whatever the environment asks to be logged, and wherever words that ask for debug events stand among the arguments, a
process ends the same way, with the same standard output and the same files, if the error stream takes what is told. What
it tells there is told in whole lines, and is the same in the same order once the lines of the log are deleted, but for
how panics are reported. -/
theorem logging_keeps_invocation (lib : Library) (fuel : Nat) (files : F) (stdout stderr : Sink)
    (report report' : Panic → List String) (grants : Nat → Bool) (program : List UInt8)
    {arguments arguments' : List (List UInt8)} (h : Relation.EqvGen Inserts arguments arguments')
    (env env' : Environment) :
    let done := invocation lib fuel env (program :: arguments) (.start files stdout stderr ⟨report, grants⟩)
    let done' := invocation lib fuel env' (program :: arguments') (.start files stdout stderr ⟨report', grants⟩)
    stderr.Takes (errorText done.2.told) → stderr.Takes (errorText done'.2.told) →
      done.1 = done'.1 ∧ done.2.stdout = done'.2.stdout ∧ done.2.files = done'.2.files ∧
        done.2.stderr.received = stderr.received ++ (errorText done.2.told).toUTF8.data ∧
        done'.2.stderr.received = stderr.received ++ (errorText done'.2.told).toUTF8.data ∧
        Text.fields Text.isFeed (errorText done.2.told).toList = (errorLines done.2.told).map Prod.snd ++ [[]] ∧
        Text.fields Text.isFeed (errorText done'.2.told).toList = (errorLines done'.2.told).map Prod.snd ++ [[]] ∧
        SameBut report report' (done.2.told.toList.filter (! ·.isLog)) (done'.2.told.toList.filter (! ·.isLog)) ∧
        (report = report' →
          (errorLines done.2.told).filter (! ·.1) = (errorLines done'.2.told).filter (! ·.1)) := by
  intro done done' htakes htakes'
  have hstart : Alike report report' (.start files stdout .unlimited ⟨report, grants⟩)
      (.start files stdout .unlimited ⟨report', grants⟩ : World F) :=
    ⟨rfl, rfl, rfl, rfl, rfl, .nil, List.forall_mem_nil _, List.forall_mem_nil _, rfl, rfl⟩
  obtain ⟨hexit, hleft⟩ := alike_invocation lib fuel env env' program (words_eq_of_eqvGen h) hstart
  obtain ⟨hsame, hfollows⟩ := follows_of_takes htakes
  obtain ⟨hsame', hfollows'⟩ := follows_of_takes htakes'
  refine ⟨hsame.trans (hexit.trans hsame'.symm), hfollows.stdout.trans (hleft.stdout.trans hfollows'.stdout.symm),
    hfollows.files.trans (hleft.files.trans hfollows'.files.symm), hfollows.received.received_eq htakes,
    hfollows'.received.received_eq htakes', ?_⟩
  rw [hfollows.told, hfollows'.told, filter_errorLines, filter_errorLines]
  refine ⟨fields_errorText hleft.whole, fields_errorText hleft.whole', hleft.told, ?_⟩
  rintro rfl
  rw [hleft.told.eq]

def printsAndFaults : World Files.Store :=
  .start ⟨[(.ofNames ["p.chb".toList], .file [0x01, 65, 0x61, 0x02])]⟩ .unlimited .unlimited .plain

def printsAndFaultsRun (before after : List String) : Exit × World Files.Store :=
  invocation ⟨Png.codec, .byLevel⟩ 8 ⟨none, none⟩
    ((["chroma"] ++ before ++ ["run"] ++ after ++ ["p.chb"]).map (·.toUTF8.data.toList)) printsAndFaults

/-- Of five lines three are of the log, and those of the report remain. -/
theorem logging_keeps_invocation_printsAndFaults :
    let quiet := printsAndFaultsRun [] []
    let loud := printsAndFaultsRun ["-v"] ["--verbose"]
    quiet.1 = .faulted ∧ loud.1 = .faulted ∧ (errorLines quiet.2.told).length = 2 ∧
      (errorLines loud.2.told).length = 5 ∧ (errorLines loud.2.told).filter (! ·.1) = errorLines quiet.2.told := by
  have hinserts : Relation.EqvGen Inserts (["run", "p.chb"].map (·.toUTF8.data.toList))
      (["-v", "run", "--verbose", "p.chb"].map (·.toUTF8.data.toList)) :=
    .trans _ (["-v", "run", "p.chb"].map (·.toUTF8.data.toList)) _
      (.rel _ _ ⟨[], _, "-v", .inr rfl, rfl, rfl⟩)
      (.rel _ _ ⟨["-v", "run"].map (·.toUTF8.data.toList), ["p.chb"].map (·.toUTF8.data.toList), "--verbose",
        .inl rfl, rfl, rfl⟩)
  have htakes (text : String) : Sink.unlimited.Takes text :=
    congrArg Prod.snd (Sink.writeText_of_room_none rfl text)
  obtain ⟨hexit, -, -, -, -, -, -, -, hlines⟩ :=
    logging_keeps_invocation ⟨Png.codec, .byLevel⟩ 8 printsAndFaults.files .unlimited .unlimited Runtime.plain.report
      Runtime.plain.report Runtime.plain.grants "chroma".toUTF8.data.toList hinserts ⟨none, none⟩ ⟨none, none⟩ (htakes _)
      (htakes _)
  have hquiet : (printsAndFaultsRun [] []).1 = .faulted := by decide +kernel
  intro quiet loud
  have hshort : (errorLines quiet.2.told).length = 2 := by decide +kernel
  have hlong : (errorLines loud.2.told).length = 5 := by decide +kernel
  have htold : (errorLines quiet.2.told).filter (! ·.1) = errorLines quiet.2.told := by decide +kernel
  exact ⟨hquiet, hexit.symm.trans hquiet, hshort, hlong, (hlines rfl).symm.trans htold⟩

end Processes
end PixelCode.Command
