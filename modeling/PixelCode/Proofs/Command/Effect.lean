import PixelCode.Command.Perform
import PixelCode.Proofs.Machine.Storage

/-! What actions do in a world whose error stream takes everything. Most only ask: they leave the files alone and find
an answer in them, or end the command. The others change the files as a whole or not at all. -/
namespace PixelCode.Command

open Files (Volume)

variable {F α β : Type}

namespace World

def Heard (w : World F) : Prop := w.stderr.room = none

structure Beside (w w' : World F) : Prop where
  heard : w'.Heard
  stdout : w'.stdout = w.stdout
  runtime : w'.runtime = w.runtime

variable {w w₁ w₂ : World F}

private theorem Heard.beside (h : w.Heard) : w.Beside w := ⟨h, rfl, rfl⟩

theorem Beside.trans (h : w.Beside w₁) (h' : w₁.Beside w₂) : w.Beside w₂ :=
  ⟨h'.heard, h'.stdout.trans h.stdout, h'.runtime.trans h.runtime⟩

theorem Heard.writeText (h : w.Heard) (text : String) : w.stderr.writeText text = (w.stderr.append text, none) :=
  Sink.writeText_of_room_none h text

theorem Heard.beside_tell (h : w.Heard) (notice : Notice) : w.Beside (w.tell notice) := by
  refine ⟨?_, rfl, rfl⟩
  rw [Heard, tell, h.writeText]
  exact h

/-- What a single notice preserves is preserved when a panic is told of. -/
theorem tellPanic_of_tell {Q : World F → Prop} (p : Panic) (h : Q w)
    (htell : ∀ v notice, Q v → Q (v.tell notice)) : Q (w.tellPanic p) := by
  rw [tellPanic]
  generalize w.runtime.report p = lines
  induction lines generalizing w with
  | nil => exact h
  | cons line lines ih => exact ih (htell w _ h)

theorem Heard.beside_tellPanic (h : w.Heard) (p : Panic) : w.Beside (w.tellPanic p) :=
  tellPanic_of_tell p h.beside fun _ notice hv => hv.trans (hv.heard.beside_tell notice)

theorem files_tellPanic (w : World F) (p : Panic) : (w.tellPanic p).files = w.files :=
  tellPanic_of_tell (Q := fun v => v.files = w.files) p rfl fun _ _ hv => hv

end World

def Runtime.plain : Runtime := ⟨fun p => [p.message], fun _ => true⟩

def outcome (a : Action (StateM (World F)) α) (w : World F) : Except Exit α × World F := a.run.run w

/-- An action whose result and whose files after it are what `effect` makes of the files before it, and of what the
process was given. Where `effect` makes nothing, the action ends the command and keeps the files. -/
structure Does (a : Action (StateM (World F)) α) (effect : Runtime → F → Except Exit (α × F)) : Prop where
  done {w : World F} {x : α} {files : F} (hw : w.Heard) (h : effect w.runtime w.files = .ok (x, files)) :
    ∃ w', w'.files = files ∧ w.Beside w' ∧ outcome a w = (.ok x, w')
  ended {w : World F} {exit : Exit} (hw : w.Heard) (h : effect w.runtime w.files = .error exit) :
    ∃ w', w'.files = w.files ∧ w.Beside w' ∧ outcome a w = (.error exit, w')

def orFail : Option α → Except Exit α
  | some x => .ok x
  | none => .error .failure

def Finds (a : Action (StateM (World F)) α) (answer : Runtime → F → Except Exit α) : Prop :=
  Does a fun runtime files => (answer runtime files).map (·, files)

def Asks (a : Action (StateM (World F)) α) (answer : F → Option α) : Prop :=
  Finds a fun _ files => orFail (answer files)

def Changes (a : Action (StateM (World F)) Unit) (change : Runtime → F → Except Exit F) : Prop :=
  Does a fun runtime files => (change runtime files).map ((), ·)

def Ends (a : Action (StateM (World F)) Unit) (w : World F) (exit : Exit) (out : Sink) : Prop :=
  ∃ w', w'.stdout = out ∧
    (outcome a w = (.ok (), w') ∧ exit = .success ∨ outcome a w = (.error exit, w'))

section Rules
variable {a : Action (StateM (World F)) α} {f : α → Action (StateM (World F)) β} {answer : F → Option α}
  {w : World F} {x : α}

theorem outcome_bind (a : Action (StateM (World F)) α) (f : α → Action (StateM (World F)) β) (w : World F) :
    outcome (a >>= f) w =
      match outcome a w with
      | (.ok x, w') => outcome (f x) w'
      | (.error exit, w') => (.error exit, w') := by
  rw [outcome, ExceptT.run_bind, StateT.run_bind]
  cases h : outcome a w with
  | mk result w' =>
    have h : a.run.run w = (result, w') := h
    rw [h]
    cases result with
    | error exit => rfl
    | ok x => rfl

theorem outcome_bind_of_ok (h : (outcome a w).1 = .ok x) : outcome (a >>= f) w = outcome (f x) (outcome a w).2 := by
  rw [outcome_bind]
  cases hresult : outcome a w with
  | mk result w' =>
    rw [hresult] at h
    obtain rfl : result = .ok x := h
    rfl

theorem outcome_bind_of_error {exit : Exit} (h : (outcome a w).1 = .error exit) :
    outcome (a >>= f) w = (.error exit, (outcome a w).2) := by
  rw [outcome_bind]
  cases hresult : outcome a w with
  | mk result w' =>
    rw [hresult] at h
    obtain rfl : result = .error exit := h
    rfl

theorem outcome_lift (request : StateM (World F) α) (w : World F) :
    outcome (ExceptT.lift request) w = (.ok (request w).1, (request w).2) := rfl

theorem Asks.answered (h : Asks a answer) (hw : w.Heard) (hanswer : answer w.files = some x) :
    ∃ w', w'.files = w.files ∧ w.Beside w' ∧ outcome a w = (.ok x, w') :=
  h.done hw (by simp only [hanswer]; rfl)

theorem Asks.unanswered (h : Asks a answer) (hw : w.Heard) (hanswer : answer w.files = none) :
    ∃ w', w'.files = w.files ∧ w.Beside w' ∧ outcome a w = (.error .failure, w') :=
  h.ended hw (by simp only [hanswer]; rfl)

/-- After a question, what is done depends on the answer and finds the same files. -/
theorem Does.bind {answer : Runtime → F → Except Exit α} {effect : α → Runtime → F → Except Exit (β × F)}
    (ha : Finds a answer) (hf : ∀ x, Does (f x) (effect x)) :
    Does (a >>= f) fun runtime files => (answer runtime files).bind fun x => effect x runtime files := by
  have hanswered {w : World F} (hw : w.Heard) {x : α} (hanswer : answer w.runtime w.files = .ok x) :
      ∃ w₁, w₁.files = w.files ∧ w.Beside w₁ ∧ outcome (a >>= f) w = outcome (f x) w₁ ∧
        effect x w₁.runtime w₁.files = effect x w.runtime w.files := by
    obtain ⟨w₁, hfiles, hbeside, ha⟩ := ha.done hw (by rw [hanswer]; rfl)
    refine ⟨w₁, hfiles, hbeside, ?_, by rw [hfiles, hbeside.runtime]⟩
    rw [outcome_bind, ha]
  constructor
  · intro w y files hw h
    cases hanswer : answer w.runtime w.files with
    | error exit =>
      rw [hanswer] at h
      cases h
    | ok x =>
      obtain ⟨w₁, -, hbeside, hdone, heffect⟩ := hanswered hw hanswer
      rw [hanswer] at h
      obtain ⟨w₂, hfiles₂, hbeside₂, hx⟩ := (hf x).done hbeside.heard (heffect.trans h)
      exact ⟨w₂, hfiles₂, hbeside.trans hbeside₂, hdone.trans hx⟩
  · intro w exit hw h
    cases hanswer : answer w.runtime w.files with
    | error exit' =>
      obtain ⟨w₁, hfiles, hbeside, ha⟩ := ha.ended hw (by rw [hanswer]; rfl)
      rw [hanswer] at h
      cases h
      refine ⟨w₁, hfiles, hbeside, ?_⟩
      rw [outcome_bind, ha]
    | ok x =>
      obtain ⟨w₁, hfiles, hbeside, hdone, heffect⟩ := hanswered hw hanswer
      rw [hanswer] at h
      obtain ⟨w₂, hfiles₂, hbeside₂, hx⟩ := (hf x).ended hbeside.heard (heffect.trans h)
      exact ⟨w₂, hfiles₂.trans hfiles, hbeside.trans hbeside₂, hdone.trans hx⟩

theorem Finds.bind {answer : Runtime → F → Except Exit α} {next : α → Runtime → F → Except Exit β}
    (ha : Finds a answer) (hf : ∀ x, Finds (f x) (next x)) :
    Finds (a >>= f) fun runtime files => (answer runtime files).bind fun x => next x runtime files := by
  have heffect : (fun runtime files => ((answer runtime files).bind fun x => next x runtime files).map (·, files)) =
      fun runtime files => (answer runtime files).bind fun x => (next x runtime files).map (·, files) := by
    funext runtime files
    cases answer runtime files <;> rfl
  rw [Finds, heffect]
  exact Does.bind ha hf

theorem Asks.bind {next : α → F → Option β} (ha : Asks a answer) (hf : ∀ x, Asks (f x) (next x)) :
    Asks (a >>= f) fun files => (answer files).bind fun x => next x files := by
  have heffect : (fun (_ : Runtime) files => orFail ((answer files).bind fun x => next x files)) =
      fun _ files => (orFail (answer files)).bind fun x => orFail (next x files) := by
    funext _ files
    cases answer files <;> rfl
  rw [Asks, heffect]
  exact Finds.bind ha hf

theorem Changes.bind {answer : Runtime → F → Except Exit α} {f : α → Action (StateM (World F)) Unit}
    {change : α → Runtime → F → Except Exit F} (ha : Finds a answer) (hf : ∀ x, Changes (f x) (change x)) :
    Changes (a >>= f) fun runtime files => (answer runtime files).bind fun x => change x runtime files := by
  have heffect : (fun runtime files => ((answer runtime files).bind fun x => change x runtime files).map ((), ·)) =
      fun runtime files => (answer runtime files).bind fun x => (change x runtime files).map ((), ·) := by
    funext runtime files
    cases answer runtime files <;> rfl
  rw [Changes, heffect]
  exact Does.bind ha hf

theorem Asks.pure (x : α) : Asks (pure x : Action (StateM (World F)) α) fun _ => some x where
  done {w} _ _ hw h := by
    cases h
    exact ⟨w, rfl, hw.beside, rfl⟩
  ended _ h := nomatch h

theorem Asks.map (ha : Asks a answer) (g : α → β) :
    Asks (a >>= fun x => Pure.pure (g x)) fun files => (answer files).map g := by
  simp only [Option.map_eq_bind]
  exact ha.bind fun x => .pure (g x)

theorem Finds.throw (exit : Exit) : Finds (throw exit : Action (StateM (World F)) α) fun _ _ => .error exit where
  done _ h := nomatch h
  ended {w} _ hw h := by
    cases h
    exact ⟨w, rfl, hw.beside, rfl⟩

theorem Asks.refuse : Asks (throw .failure : Action (StateM (World F)) α) fun _ => none := Finds.throw .failure

theorem Asks.forM {ι : Type} (items : List ι) {f : ι → Action (StateM (World F)) Unit}
    (h : ∀ item, Asks (f item) fun _ => some ()) : Asks (items.forM f) fun _ => some () := by
  induction items with
  | nil => exact .pure ()
  | cons item items ih => exact (h item).bind fun _ => ih

/-- An answered question leaves what follows it to be done with the answer. -/
theorem Asks.outcome_bind_of_some (ha : Asks a answer) (hw : w.Heard) (hx : answer w.files = some x)
    (f : α → Action (StateM (World F)) β) :
    ∃ w', w'.files = w.files ∧ w.Beside w' ∧ outcome (a >>= f) w = outcome (f x) w' := by
  obtain ⟨w', hfiles, hbeside, hdone⟩ := ha.answered hw hx
  refine ⟨w', hfiles, hbeside, ?_⟩
  rw [outcome_bind, hdone]

theorem Asks.outcome_bind_of_none (ha : Asks a answer) (hw : w.Heard) (hx : answer w.files = none)
    (f : α → Action (StateM (World F)) β) :
    ∃ w', w.Beside w' ∧ outcome (a >>= f) w = (.error .failure, w') := by
  obtain ⟨w', -, hbeside, hended⟩ := ha.unanswered hw hx
  refine ⟨w', hbeside, ?_⟩
  rw [outcome_bind, hended]

variable {exit : Exit} {out : Sink}

theorem Ends.of_asks {f : α → Action (StateM (World F)) Unit} (ha : Asks a answer) (hw : w.Heard)
    (hx : answer w.files = some x) (hf : ∀ w', w.Beside w' → Ends (f x) w' exit out) :
    Ends (a >>= f) w exit out := by
  obtain ⟨w', -, hbeside, hdone⟩ := ha.outcome_bind_of_some hw hx f
  rw [Ends, hdone]
  exact hf w' hbeside

theorem Ends.of_unanswered {a : Action (StateM (World F)) Unit} {answer : F → Option Unit} (ha : Asks a answer)
    (hw : w.Heard) (hx : answer w.files = none) : Ends a w .failure w.stdout := by
  obtain ⟨w', -, hbeside, hended⟩ := ha.unanswered hw hx
  exact ⟨w', hbeside.stdout, .inr hended⟩

theorem Ends.of_lift {request : StateM (World F) α} {f : α → Action (StateM (World F)) Unit}
    (h : Ends (f (request w).1) (request w).2 exit out) : Ends (ExceptT.lift request >>= f) w exit out := by
  simp only [Ends, outcome_bind, outcome_lift]
  exact h

end Rules

section Requests
variable [Volume F] {w : World F}

theorem outcome_report (notice : Notice) (w : World F) :
    outcome (ExceptT.lift (Host.report notice)) w = (.ok (w.stderr.writeText notice.render).2, w.tell notice) := rfl

theorem outcome_abort (p : Panic) (w : World F) :
    outcome (abort p : Action (StateM (World F)) α) w = (.error .aborted, w.tellPanic p) := rfl

theorem outcome_say (hw : w.Heard) (line : String) : outcome (say line) w = (.ok (), w.tell (.text (line ++ "\n"))) := by
  rw [say, outcome_bind, outcome_report, hw.writeText]
  rfl

theorem outcome_fail (hw : w.Heard) (message : String) :
    outcome (fail message : Action (StateM (World F)) α) w =
      (.error .failure, w.tell (.text ("error: " ++ message ++ "\n"))) := by
  rw [fail, outcome_bind, outcome_say hw]
  rfl

theorem outcome_log (hw : w.Heard) (s : Settings) (e : Entry) :
    outcome (log s e) w = (.ok (), if s.filter.admits e then w.tell (.log e) else w) := by
  rw [log]
  split
  · rw [outcome_bind, outcome_report, hw.writeText]
    cases s.insists <;> rfl
  · rfl

theorem outcome_reportFault (hw : w.Heard) (f : Fault) :
    outcome (reportFault f) w = (.error .faulted, w.tell (.text (f.message ++ "\n"))) := by
  rw [reportFault, outcome_bind, outcome_report, hw.writeText]
  rfl

theorem Asks.say (line : String) : Asks (say line : Action (StateM (World F)) Unit) fun _ => some () where
  done {w} _ _ hw h := by
    cases h
    exact ⟨w.tell (.text (line ++ "\n")), rfl, hw.beside_tell _, outcome_say hw line⟩
  ended _ h := nomatch h

theorem Asks.tell {a : Action (StateM (World F)) α} {answer : F → Option α} (line : String) (h : Asks a answer) :
    Asks (Command.say line >>= fun _ => a) answer :=
  (Asks.say line).bind fun _ => h

theorem Asks.fail (message : String) : Asks (fail message : Action (StateM (World F)) α) fun _ => none :=
  .tell _ .refuse

theorem Asks.log (s : Settings) (e : Entry) : Asks (log s e : Action (StateM (World F)) Unit) fun _ => some () where
  done {w} _ _ hw h := by
    cases h
    refine ⟨_, ?_, ?_, outcome_log hw s e⟩
    · split <;> rfl
    · split
      · exact hw.beside_tell _
      · exact hw.beside
  ended _ h := nomatch h

theorem Finds.abort (p : Panic) : Finds (abort p : Action (StateM (World F)) α) fun _ _ => .error .aborted where
  done _ h := nomatch h
  ended {w} _ hw h := by
    cases h
    exact ⟨_, w.files_tellPanic p, hw.beside_tellPanic p, outcome_abort p w⟩

def reserved (runtime : Runtime) (size : Nat) : Except Exit Unit :=
  if Pixel.wordSize / 2 ≤ size then .error .aborted
  else if runtime.grants size then .ok () else .error .exhausted

theorem Finds.reserve (size : Nat) :
    Finds (reserve size : Action (StateM (World F)) Unit) fun runtime _ => reserved runtime size := by
  have hrequest : Finds (ExceptT.lift (Host.reserve size) : Action (StateM (World F)) Bool) fun runtime _ =>
      .ok (runtime.grants size) :=
    { done := fun {w} _ _ hw h => by cases h; exact ⟨w, rfl, hw.beside, rfl⟩
      ended := fun _ h => nomatch h }
  unfold Command.reserve reserved
  split
  · exact .abort _
  · refine hrequest.bind fun granted => (?_ : Finds _ fun _ _ => if granted then .ok () else .error .exhausted)
    cases granted with
    | true => exact Asks.pure ()
    | false => exact .throw _

theorem Asks.readFile (path : String) :
    Asks (readFile path : Action (StateM (World F)) (List UInt8)) fun files =>
      (Volume.read files path).toOption := by
  have hrequest : Asks (ExceptT.lift (Host.readFile path) : Action (StateM (World F)) _) fun files =>
      some (Volume.read files path) :=
    { done := fun {w} _ _ hw h => by cases h; exact ⟨w, rfl, hw.beside, rfl⟩
      ended := fun _ h => nomatch h }
  unfold Command.readFile
  refine hrequest.bind fun result => (?_ : Asks _ fun _ => result.toOption)
  cases result with
  | ok bytes => exact .pure bytes
  | error reason => exact .fail _

theorem outcome_writeFile (path : String) (bytes : List UInt8) (w : World F) :
    outcome (writeFile path bytes) w =
      match Volume.write w.files path bytes with
      | .ok files => (.ok (), { w with files })
      | .error reason => outcome (fail s!"cannot write '{path}': {reason}") w := by
  rw [Command.writeFile, outcome_bind, outcome_lift]
  have hrequest : (Host.writeFile path bytes : StateM (World F) (Except String Unit)) w =
      match Volume.write w.files path bytes with
      | .ok files => (.ok (), { w with files })
      | .error reason => (.error reason, w) := rfl
  rw [hrequest]
  cases Volume.write w.files path bytes with
  | error reason => rfl
  | ok files => rfl

theorem Changes.writeFile (path : String) (bytes : List UInt8) :
    Changes (writeFile path bytes : Action (StateM (World F)) Unit) fun _ files =>
      orFail (Volume.write files path bytes).toOption := by
  constructor
  · intro w x files hw h
    rw [outcome_writeFile]
    cases hwrite : Volume.write w.files path bytes with
    | error reason =>
      simp only [hwrite] at h
      cases h
    | ok written =>
      simp only [hwrite] at h
      cases h
      exact ⟨{ w with files }, rfl, ⟨hw, rfl, rfl⟩, rfl⟩
  · intro w exit hw h
    rw [outcome_writeFile]
    cases hwrite : Volume.write w.files path bytes with
    | error reason =>
      simp only [hwrite] at h
      cases h
      exact (Asks.fail _).unanswered hw rfl
    | ok written =>
      simp only [hwrite] at h
      cases h

theorem Changes.fail (message : String) :
    Changes (fail message : Action (StateM (World F)) Unit) fun _ _ => .error .failure :=
  Asks.fail message

/-- A last word does not change what was done. -/
theorem Changes.say {a : Action (StateM (World F)) Unit} {change : Runtime → F → Except Exit F}
    (h : Changes a change) (line : String) : Changes (a >>= fun _ => say line) change := by
  constructor
  · intro w x files hw hchange
    obtain ⟨w₁, hfiles, hbeside, hdone⟩ := h.done hw hchange
    obtain ⟨w₂, hfiles₂, hbeside₂, hsay⟩ := (Asks.say line).answered hbeside.heard rfl
    refine ⟨w₂, hfiles₂.trans hfiles, hbeside.trans hbeside₂, ?_⟩
    rw [outcome_bind, hdone]
    exact hsay
  · intro w exit hw hchange
    obtain ⟨w₁, hfiles, hbeside, hended⟩ := h.ended hw hchange
    refine ⟨w₁, hfiles, hbeside, ?_⟩
    rw [outcome_bind, hended]

end Requests
end PixelCode.Command
