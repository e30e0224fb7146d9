import PixelCode.Proofs.Command.ErrorStream
import PixelCode.Proofs.Command.Product
import PixelCode.Proofs.Machine.Ending

/-! Commands that are carried out in two worlds side by side. Each action finds the same files and the same standard
output and comes to the same result, unless the first of the two is broken off. What carries the argument through all
commands is stated once for any relation between the two worlds; it then holds for worlds that differ in what is logged,
and for worlds of which one has an error stream that may refuse. -/
namespace PixelCode.Command

open Files (Volume)

variable {F α β : Type}

/-- How two worlds are related along the way, and how the first one looks after its command was broken off. -/
structure Pairing (F : Type) where
  related : World F → World F → Prop
  broken : World F → Prop
  files {w w' : World F} (h : related w w') : w.files = w'.files

def Keeps (a : Action (StateM (World F)) α) : Prop := ∀ w, (outcome a w).2.files = w.files

/-- In related worlds two actions come to the same result and leave related worlds, or the first is broken off. -/
def Agrees (P : Pairing F) (a a' : Action (StateM (World F)) α) : Prop :=
  ∀ ⦃w w'⦄, P.related w w' →
    (outcome a w).1 = (outcome a' w').1 ∧ P.related (outcome a w).2 (outcome a' w').2 ∨
      (outcome a w).1 = .error .aborted ∧ P.broken (outcome a w).2

structure Reads (P : Pairing F) (a a' : Action (StateM (World F)) α) : Prop where
  keeps : Keeps a
  keeps' : Keeps a'
  agrees : Agrees P a a'

/-- Actions that agree. An action that is broken off leaves the files as they were, or as the other action leaves them. -/
def Tracks (P : Pairing F) (a a' : Action (StateM (World F)) α) : Prop :=
  ∀ ⦃w w'⦄, P.related w w' →
    (outcome a w).1 = (outcome a' w').1 ∧ P.related (outcome a w).2 (outcome a' w').2 ∨
      (outcome a w).1 = .error .aborted ∧ P.broken (outcome a w).2 ∧
        ((outcome a w).2.files = w.files ∨ (outcome a w).2.files = (outcome a' w').2.files)

section Rules
variable {P : Pairing F} {a a' : Action (StateM (World F)) α} {f f' : α → Action (StateM (World F)) β}

private theorem files_bind_of_keeps (hf : ∀ x, Keeps (f x)) (w : World F) :
    (outcome (a >>= f) w).2.files = (outcome a w).2.files := by
  cases hresult : (outcome a w).1 with
  | ok x =>
    rw [outcome_bind_of_ok hresult]
    exact hf x _
  | error exit => rw [outcome_bind_of_error hresult]

theorem Keeps.bind (ha : Keeps a) (hf : ∀ x, Keeps (f x)) : Keeps (a >>= f) :=
  fun w => (files_bind_of_keeps hf w).trans (ha w)

/-- After the same result two actions go on with the same value, or both end. -/
private theorem bind_cases (f f' : α → Action (StateM (World F)) β) {w w' : World F}
    (h : (outcome a w).1 = (outcome a' w').1) :
    (∃ x, outcome (a >>= f) w = outcome (f x) (outcome a w).2 ∧
        outcome (a' >>= f') w' = outcome (f' x) (outcome a' w').2) ∨
      ∃ exit, outcome (a >>= f) w = (.error exit, (outcome a w).2) ∧
        outcome (a' >>= f') w' = (.error exit, (outcome a' w').2) := by
  cases hresult : (outcome a' w').1 with
  | ok x => exact .inl ⟨x, outcome_bind_of_ok (h.trans hresult), outcome_bind_of_ok hresult⟩
  | error exit => exact .inr ⟨exit, outcome_bind_of_error (h.trans hresult), outcome_bind_of_error hresult⟩

theorem Agrees.bind (ha : Agrees P a a') (hf : ∀ x, Agrees P (f x) (f' x)) : Agrees P (a >>= f) (a' >>= f') := by
  intro w w' hw
  rcases ha hw with ⟨hresult, hleft⟩ | ⟨haborted, hbroken⟩
  · rcases bind_cases f f' hresult with ⟨x, h, h'⟩ | ⟨exit, h, h'⟩
    · rw [h, h']
      exact hf x hleft
    · rw [h, h']
      exact .inl ⟨rfl, hleft⟩
  · rw [outcome_bind_of_error haborted]
    exact .inr ⟨rfl, hbroken⟩

theorem Reads.bind (ha : Reads P a a') (hf : ∀ x, Reads P (f x) (f' x)) : Reads P (a >>= f) (a' >>= f') :=
  ⟨ha.keeps.bind fun x => (hf x).keeps, ha.keeps'.bind fun x => (hf x).keeps',
    ha.agrees.bind fun x => (hf x).agrees⟩

private theorem Reads.tracks (h : Reads P a a') : Tracks P a a' := by
  intro w w' hw
  rcases h.agrees hw with hsame | ⟨haborted, hbroken⟩
  · exact .inl hsame
  · exact .inr ⟨haborted, hbroken, .inl (h.keeps w)⟩

/-- What is read first does not change the files. -/
theorem Tracks.bind (ha : Reads P a a') (hf : ∀ x, Tracks P (f x) (f' x)) : Tracks P (a >>= f) (a' >>= f') := by
  intro w w' hw
  rcases ha.agrees hw with ⟨hresult, hleft⟩ | ⟨haborted, hbroken⟩
  · rcases bind_cases f f' hresult with ⟨x, h, h'⟩ | ⟨exit, h, h'⟩
    · rw [h, h']
      rcases hf x hleft with hsame | ⟨haborted, hbroken, hfiles⟩
      · exact .inl hsame
      · exact .inr ⟨haborted, hbroken, hfiles.imp_left fun hfiles => hfiles.trans (ha.keeps w)⟩
    · rw [h, h']
      exact .inl ⟨rfl, hleft⟩
  · rw [outcome_bind_of_error haborted]
    exact .inr ⟨rfl, hbroken, .inl (ha.keeps w)⟩

/-- What is told at the end does not change the files. -/
theorem Tracks.and_then (ha : Tracks P a a') (hf : ∀ x, Reads P (f x) (f' x)) : Tracks P (a >>= f) (a' >>= f') := by
  intro w w' hw
  have hkept : (outcome (a >>= f) w).2.files = (outcome a w).2.files := files_bind_of_keeps (fun x => (hf x).keeps) w
  have hkept' : (outcome (a' >>= f') w').2.files = (outcome a' w').2.files :=
    files_bind_of_keeps (fun x => (hf x).keeps') w'
  rcases ha hw with ⟨hresult, hleft⟩ | ⟨haborted, hbroken, hfiles⟩
  · have hsame := hkept.trans ((P.files hleft).trans hkept'.symm)
    rcases bind_cases f f' hresult with ⟨x, h, h'⟩ | ⟨exit, h, h'⟩
    · rw [h, h'] at hsame ⊢
      exact ((hf x).agrees hleft).imp_right fun hended => ⟨hended.1, hended.2, .inr hsame⟩
    · rw [h, h']
      exact .inl ⟨rfl, hleft⟩
  · rw [hkept']
    rw [outcome_bind_of_error haborted]
    exact .inr ⟨rfl, hbroken, hfiles⟩

theorem Reads.pure (x : α) : Reads P (Pure.pure x) (Pure.pure x) :=
  ⟨fun _ => rfl, fun _ => rfl, fun _ _ hw => .inl ⟨rfl, hw⟩⟩

theorem Reads.throw (exit : Exit) : Reads P (throw exit : Action (StateM (World F)) α) (throw exit) :=
  ⟨fun _ => rfl, fun _ => rfl, fun _ _ hw => .inl ⟨rfl, hw⟩⟩

theorem Reads.forM {ι : Type} (items : List ι) {f f' : ι → Action (StateM (World F)) Unit}
    (h : ∀ item, Reads P (f item) (f' item)) : Reads P (items.forM f) (items.forM f') := by
  induction items with
  | nil => exact .pure ()
  | cons item items ih => exact (h item).bind fun _ => ih

end Rules

theorem Keeps.throw (exit : Exit) : Keeps (throw exit : Action (StateM (World F)) α) := fun _ => rfl

section Kept
variable [Volume F]

theorem Keeps.abort (p : Panic) : Keeps (abort p : Action (StateM (World F)) α) := fun w => w.files_tellPanic p

theorem Keeps.report (notice : Notice) :
    Keeps (ExceptT.lift (Host.report notice) : Action (StateM (World F)) (Option String)) := fun _ => rfl

theorem Keeps.say (line : String) : Keeps (say line : Action (StateM (World F)) Unit) := by
  refine (Keeps.report _).bind fun refusal => ?_
  cases refusal with
  | none => exact fun _ => rfl
  | some reason => exact .abort _

theorem Keeps.log (s : Settings) (e : Entry) : Keeps (log s e : Action (StateM (World F)) Unit) := by
  unfold Command.log
  split
  · refine (Keeps.report _).bind fun refusal => ?_
    split
    · exact .abort _
    · exact fun _ => rfl
  · exact fun _ => rfl

theorem Keeps.logAll (s : Settings) (events : List Event) :
    Keeps (events.forM fun e => Command.log s e.entry : Action (StateM (World F)) Unit) := by
  induction events with
  | nil => exact fun _ => rfl
  | cons e events ih => exact (Keeps.log s e.entry).bind fun _ => ih

theorem Keeps.reportFault (f : Fault) : Keeps (reportFault f : Action (StateM (World F)) Unit) := by
  refine (Keeps.report _).bind fun refusal => ?_
  cases refusal with
  | none => exact .throw _
  | some reason => exact (Keeps.say _).bind fun _ => .throw _

end Kept

def Settings.ran (s : Settings) (p : Program) (out : Sink) : Option Run :=
  Machine.initial.run p s.fuel out (.start s.filter.finest)

/-- What a relation between worlds has to provide, so that commands with these settings are carried out side by side:
files and standard output can be exchanged in both worlds, and whatever is told is told in both or breaks off the
first. -/
structure Pairing.Carries [Volume F] (P : Pairing F) (s s' : Settings) : Prop where
  codec : s.codec = s'.codec
  fuel : s.fuel = s'.fuel
  stdout {w w' : World F} (h : P.related w w') : w.stdout = w'.stdout
  grants {w w' : World F} (h : P.related w w') : w.runtime.grants = w'.runtime.grants
  withFiles {w w' : World F} (h : P.related w w') (files : F) : P.related { w with files } { w' with files }
  withStdout {w w' : World F} (h : P.related w w') (stdout : Sink) : P.related { w with stdout } { w' with stdout }
  abort (p : Panic) : Agrees P (abort p : Action (StateM (World F)) Unit) (abort p)
  say (line : String) : Agrees P (say line) (say line)
  reportFault (f : Fault) : Agrees P (reportFault f) (reportFault f)
  log {e : Entry} (he : OnLine e.line) : Agrees P (log s e) (log s' e)
  logAll {p : Program} {out : Sink} {r r' : Run} (h : s.ran p out = some r) (h' : s'.ran p out = some r') :
    Agrees P (r.trace.events.toList.forM fun e => Command.log s e.entry)
      (r'.trace.events.toList.forM fun e => Command.log s' e.entry)

section Requests
variable [Volume F] {P : Pairing F} {s s' : Settings} (hP : P.Carries s s')
include hP

theorem Reads.abort (p : Panic) : Reads P (abort p : Action (StateM (World F)) Unit) (Command.abort p) :=
  ⟨.abort p, .abort p, hP.abort p⟩

theorem Reads.say (line : String) : Reads P (say line) (Command.say line) :=
  ⟨.say line, .say line, hP.say line⟩

theorem Reads.reportFault (f : Fault) : Reads P (reportFault f) (Command.reportFault f) :=
  ⟨.reportFault f, .reportFault f, hP.reportFault f⟩

theorem Reads.log {e : Entry} (he : OnLine e.line) : Reads P (log s e) (Command.log s' e) :=
  ⟨.log s e, .log s' e, hP.log he⟩

theorem Reads.tell {a a' : Action (StateM (World F)) α} (line : String) (h : Reads P a a') :
    Reads P (Command.say line >>= fun _ => a) (Command.say line >>= fun _ => a') :=
  (Reads.say hP line).bind fun _ => h

theorem Reads.fail (message : String) : Reads P (fail message : Action (StateM (World F)) α) (Command.fail message) :=
  .tell hP _ (.throw _)

theorem Reads.stdout :
    Reads P (ExceptT.lift Host.stdout : Action (StateM (World F)) Sink) (ExceptT.lift Host.stdout) :=
  ⟨fun _ => rfl, fun _ => rfl, fun _ _ hw => .inl ⟨congrArg Except.ok (hP.stdout hw), hw⟩⟩

theorem Reads.deliver (sink : Sink) :
    Reads P (ExceptT.lift (Host.deliver sink) : Action (StateM (World F)) (Except String Unit))
      (ExceptT.lift (Host.deliver sink)) :=
  ⟨fun _ => rfl, fun _ => rfl, fun _ _ hw => .inl ⟨rfl, hP.withStdout hw sink⟩⟩

theorem Reads.reserve (size : Nat) :
    Reads P (reserve size : Action (StateM (World F)) Unit) (Command.reserve size) := by
  have hrequest : Reads P (ExceptT.lift (Host.reserve size) : Action (StateM (World F)) Bool)
      (ExceptT.lift (Host.reserve size)) :=
    ⟨fun _ => rfl, fun _ => rfl, fun _ _ hw =>
      .inl ⟨congrArg (fun grants : Nat → Bool => Except.ok (grants size)) (hP.grants hw), hw⟩⟩
  unfold Command.reserve
  split
  · exact .abort hP _
  · refine hrequest.bind fun granted => ?_
    cases granted with
    | true => exact .pure ()
    | false => exact .throw _

theorem Reads.readFile (path : String) :
    Reads P (readFile path : Action (StateM (World F)) (List UInt8)) (Command.readFile path) := by
  have hrequest : Reads P (ExceptT.lift (Host.readFile path) : Action (StateM (World F)) _)
      (ExceptT.lift (Host.readFile path)) :=
    ⟨fun _ => rfl, fun _ => rfl, fun _ _ hw =>
      .inl ⟨congrArg (fun files => Except.ok (Volume.read files path)) (P.files hw), hw⟩⟩
  refine hrequest.bind fun result => ?_
  cases result with
  | ok bytes => exact .pure bytes
  | error reason => exact .fail hP _

theorem Tracks.writeFile (path : String) (bytes : List UInt8) :
    Tracks P (writeFile path bytes : Action (StateM (World F)) Unit) (Command.writeFile path bytes) := by
  intro w w' hw
  rw [outcome_writeFile, outcome_writeFile, P.files hw]
  cases Volume.write w'.files path bytes with
  | ok files => exact .inl ⟨rfl, hP.withFiles hw files⟩
  | error reason =>
    rw [← P.files hw]
    exact (Reads.fail hP _).tracks hw

theorem Tracks.fail (message : String) :
    Tracks P (fail message : Action (StateM (World F)) Unit) (Command.fail message) :=
  (Reads.fail hP message).tracks

end Requests

section Commands
variable [Volume F] {P : Pairing F} {s s' : Settings} (hP : P.Carries s s')
include hP

theorem Reads.readText (path : String) :
    Reads P (readText path : Action (StateM (World F)) String) (Command.readText path) := by
  refine (Reads.readFile hP path).bind fun bytes => ?_
  cases decode? bytes with
  | none => exact .fail hP _
  | some text => exact .pure text

theorem Reads.readImage (path : String) :
    Reads P (readImage s path : Action (StateM (World F)) Raster) (Command.readImage s' path) := by
  unfold Command.readImage
  rw [hP.codec]
  refine (Reads.readFile hP path).bind fun bytes => ?_
  cases s'.codec.decode bytes with
  | error reason => exact .fail hP _
  | ok image =>
    refine (Reads.log hP (Entry.onLine ?_)).bind fun _ => .pure image
    simp +decide [Field.text]

theorem Reads.readPixels (path : String) :
    Reads P (readPixels s path : Action (StateM (World F)) (List UInt8)) (Command.readPixels s' path) := by
  unfold Command.readPixels
  cases Format.ofPath path with
  | png => exact (Reads.readImage hP path).bind fun image => .pure image.rgba
  | bin => exact .readFile hP path
  | hex => exact .readFile hP path
  | rgba => exact .readFile hP path

theorem Tracks.writeImage (path : String) (image : Raster) :
    Tracks P (writeImage s path image : Action (StateM (World F)) Unit) (Command.writeImage s' path image) := by
  unfold Command.writeImage
  cases Format.ofPath path with
  | bin => exact .writeFile hP path image.rgba
  | hex => exact .writeFile hP path image.rgba
  | rgba => exact .writeFile hP path image.rgba
  | png =>
    rw [hP.codec]
    dsimp only
    split
    · exact .fail hP _
    · split
      · exact .fail hP _
      · exact .writeFile hP path _

theorem Reads.readBytes (path : String) (format : Format) :
    Reads P (readBytes s path format : Action (StateM (World F)) (List UInt8))
      (Command.readBytes s' path format) := by
  cases format with
  | bin => exact .readFile hP path
  | rgba => exact (Reads.readFile hP path).bind fun rgba => .pure (Pixel.reveal rgba)
  | png => exact (Reads.readImage hP path).bind fun image => .pure (Pixel.reveal image.rgba)
  | hex =>
    refine (Reads.readText hP path).bind fun text => ?_
    cases Program.ofListing text with
    | error e => exact .fail hP _
    | ok p => exact .pure p.toList

theorem Reads.readProgram (path : String) (format : Format) :
    Reads P (readProgram s path format : Action (StateM (World F)) Program)
      (Command.readProgram s' path format) := by
  have hlabel : OnLine format.label := by cases format <;> decide
  refine (Reads.readBytes hP path format).bind fun bytes => ?_
  refine (Reads.log hP (Entry.onLine ?_)).bind fun _ => .pure _
  simp +decide [Field.text, hlabel]

theorem Reads.formatArgument (input : String) (arguments : List String) :
    Reads P (formatArgument input arguments : Action (StateM (World F)) Format)
      (Command.formatArgument input arguments) := by
  unfold Command.formatArgument
  split
  · exact .pure _
  next name =>
    cases Format.ofName? name with
    | none => exact .fail hP _
    | some format => exact .pure format
  · exact .fail hP _

theorem Reads.outputArgument (default : String) (arguments : List String) :
    Reads P (outputArgument default arguments : Action (StateM (World F)) String)
      (Command.outputArgument default arguments) := by
  unfold Command.outputArgument
  split
  · exact .pure _
  · exact .pure _
  · exact .fail hP _

theorem Reads.dimension (name value : String) :
    Reads P (dimension name value : Action (StateM (World F)) Nat) (Command.dimension name value) := by
  unfold Command.dimension
  split
  · exact .pure _
  · exact .fail hP _

theorem Reads.readCover (path : String) (rest : List String) :
    Reads P (readCover s path rest : Action (StateM (World F)) (Raster × List String))
      (Command.readCover s' path rest) := by
  unfold Command.readCover
  split
  · exact (Reads.readImage hP path).bind fun image => .pure _
  · exact (Reads.dimension hP _ _).bind fun width => (Reads.dimension hP _ _).bind fun height =>
      (Reads.readFile hP path).bind fun rgba => .pure _
  · exact .fail hP _
  · exact .fail hP _

theorem Reads.pad (size capacity : Nat) :
    Reads P (pad s size capacity : Action (StateM (World F)) Unit) (Command.pad s' size capacity) := by
  unfold Command.pad
  split
  · refine (Reads.log hP (Entry.onLine ?_)).bind fun _ => .reserve hP capacity
    simp +decide [Field.text]
  · exact .pure ()

theorem Tracks.writeHidden (output : String) (cover : Raster) (p : Program) :
    Tracks P (writeHidden s output cover p : Action (StateM (World F)) Unit)
      (Command.writeHidden s' output cover p) := by
  unfold Command.writeHidden
  cases Pixel.concealPadded p.toList cover.rgba cover.width cover.height with
  | error e => exact .fail hP _
  | ok rgba => exact (Tracks.writeImage hP output _).and_then fun _ => .say hP _

theorem Tracks.assemble (arguments : List String) :
    Tracks P (assemble arguments : Action (StateM (World F)) Unit) (Command.assemble arguments) := by
  unfold Command.assemble
  cases arguments with
  | nil => exact (Reads.tell hP _ (.tell hP _ (.throw _))).tracks
  | cons input rest =>
    refine .bind (.outputArgument hP _ rest) fun output => .bind (.readText hP input) fun text => ?_
    cases Assembly.assemble text with
    | error e => exact .fail hP _
    | ok p => exact (Tracks.writeFile hP output p.toList).and_then fun _ => .say hP _

theorem Tracks.embed (arguments : List String) :
    Tracks P (embed s arguments : Action (StateM (World F)) Unit) (Command.embed s' arguments) := by
  unfold Command.embed
  split
  next input path rest =>
    exact .bind (.readCover hP path rest) fun (cover, rest) => .bind (.outputArgument hP _ rest) fun output =>
      .bind (.readProgram hP input _) fun p => .bind (.pad hP _ _) fun _ => .writeHidden hP output cover p
  next => exact (Reads.tell hP _ (.tell hP _ (.tell hP _ (.throw _)))).tracks

theorem Tracks.extract (arguments : List String) :
    Tracks P (extract s arguments : Action (StateM (World F)) Unit) (Command.extract s' arguments) := by
  unfold Command.extract
  cases arguments with
  | nil => exact (Reads.tell hP _ (.tell hP _ (.throw _))).tracks
  | cons input rest =>
    exact .bind (.outputArgument hP _ rest) fun output => .bind (.readPixels hP input) fun rgba =>
      (Tracks.writeFile hP output (Pixel.reveal rgba)).and_then fun _ => .say hP _

/-- What is told of a run does not depend on what else is recorded of it. -/
theorem Reads.conclude (p : Program) (out : Sink) :
    Reads P (conclude s (s.ran p out) : Action (StateM (World F)) Unit) (Command.conclude s' (s'.ran p out)) := by
  have heffect : (s.ran p out).map Run.effect = (s'.ran p out).map Run.effect := by
    rw [Settings.ran, Settings.ran, hP.fuel]
    exact Machine.runFrom_effect p s'.fuel _ out _ _
  cases hran : s.ran p out with
  | none =>
    rw [hran] at heffect
    rw [Option.map_eq_none_iff.1 heffect.symm]
    exact .throw _
  | some r =>
    rw [hran] at heffect
    obtain ⟨r', hran', hsame⟩ := Option.map_eq_some_iff.1 heffect.symm
    obtain ⟨-, hout, hending⟩ : r'.machine = r.machine ∧ r'.out = r.out ∧ r'.ending = r.ending := by
      simpa [Run.effect] using hsame
    have hflushed : r'.flushed = r.flushed := by rw [Run.flushed, Run.flushed, hout, hending]
    have hlog : Reads P (r.trace.events.toList.forM fun e => Command.log s e.entry)
        (r'.trace.events.toList.forM fun e => Command.log s' e.entry) :=
      ⟨.logAll s _, .logAll s' _, hP.logAll hran hran'⟩
    rw [hran']
    unfold Command.conclude
    dsimp only
    rw [hout, hflushed]
    refine hlog.bind fun _ => (Reads.deliver hP r.out).bind fun delivered => ?_
    split
    · exact .fail hP _
    · exact .fail hP _
    · exact .pure ()
    · exact .reportFault hP _

theorem Reads.run (arguments : List String) :
    Reads P (run s arguments : Action (StateM (World F)) Unit) (Command.run s' arguments) := by
  unfold Command.run
  cases arguments with
  | nil => exact .tell hP _ (.tell hP _ (.throw _))
  | cons input rest =>
    exact (Reads.formatArgument hP input rest).bind fun format => (Reads.readProgram hP input format).bind fun p =>
      (Reads.stdout hP).bind fun out => .conclude hP p out

theorem Reads.disassemble (arguments : List String) :
    Reads P (disassemble s arguments : Action (StateM (World F)) Unit) (Command.disassemble s' arguments) := by
  unfold Command.disassemble
  cases arguments with
  | nil => exact .tell hP _ (.tell hP _ (.throw _))
  | cons input rest =>
    refine (Reads.formatArgument hP input rest).bind fun format => (Reads.readProgram hP input format).bind fun p =>
      (Reads.stdout hP).bind fun sink => (Reads.deliver hP _).bind fun delivered => ?_
    split
    · exact .pure ()
    · exact .abort hP _
    · exact .abort hP _

theorem Reads.sayUsage : Reads P (sayUsage : Action (StateM (World F)) Unit) Command.sayUsage :=
  .forM usage (.say hP)

theorem reads_dispatch {request : List String} (h : makes request = false) :
    Reads P (dispatch s request : Action (StateM (World F)) Unit) (dispatch s' request) := by
  unfold dispatch
  split
  · exact (Reads.sayUsage hP).bind fun _ => .throw _
  · exact .run hP _
  · cases h
  · exact .disassemble hP _
  · cases h
  · cases h
  · exact .sayUsage hP
  · exact .sayUsage hP
  · exact .sayUsage hP
  · exact .tell hP _ (.tell hP _ ((Reads.sayUsage hP).bind fun _ => .throw _))

private theorem tracks_dispatch (request : List String) :
    Tracks P (dispatch s request : Action (StateM (World F)) Unit) (dispatch s' request) := by
  cases hmakes : makes request with
  | false => exact (reads_dispatch hP hmakes).tracks
  | true =>
    unfold makes at hmakes
    split at hmakes
    · exact .assemble hP _
    · exact .embed hP _
    · exact .extract hP _
    · cases hmakes

end Commands

section Perform
variable [Volume F] {P : Pairing F} {lib lib' : Library} {fuel fuel' : Nat} {env env' : Environment}
  {arguments arguments' : List String} {w w' : World F}

def Pairing.Meets (P : Pairing F) (files : F) (done done' : Exit × World F) : Prop :=
  done.1 = done'.1 ∧ P.related done.2 done'.2 ∨
    done.1 = .aborted ∧ P.broken done.2 ∧ (done.2.files = files ∨ done.2.files = done'.2.files)

/-- Command lines with the same request are carried out side by side. -/
theorem Pairing.Carries.meets (hP : P.Carries (settings lib fuel env arguments) (settings lib' fuel' env' arguments'))
    (hrequest : request arguments = request arguments') (hw : P.related w w') :
    P.Meets w.files (performance lib fuel env arguments w) (performance lib' fuel' env' arguments' w') := by
  have htracks := tracks_dispatch hP (request arguments) hw
  rw [performance_eq, performance_eq, ← hrequest]
  rcases htracks with ⟨hresult, hleft⟩ | ⟨haborted, hbroken⟩
  · exact .inl ⟨congrArg Exit.ofOutcome hresult, hleft⟩
  · exact .inr ⟨congrArg Exit.ofOutcome haborted, hbroken⟩

end Perform
end PixelCode.Command
