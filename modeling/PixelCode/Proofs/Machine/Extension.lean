import PixelCode.Proofs.Image.Hiding
import PixelCode.Proofs.Machine.Transfer

/-! Programs with more bytes behind them. What a scan found stays found, so the end of a run is spared
only if something was missed: the end of the program, an operand or the target of a scan. -/
namespace PixelCode

namespace Program

instance : Append Program := ⟨fun p q => ⟨p.bytes ++ q.bytes⟩⟩

variable {p q : Program} {pc : Nat}

private theorem byte?_append_left (h : pc < p.size) : (p ++ q).byte? pc = p.byte? pc :=
  Array.getElem?_append_left h

private theorem byte?_append_right (h : p.size ≤ pc) : (p ++ q).byte? pc = q.byte? (pc - p.size) :=
  Array.getElem?_append_right h

private theorem opcode?_append_left (h : pc < p.size) : (p ++ q).opcode? pc = p.opcode? pc := by
  rw [opcode?, byte?_append_left h, opcode?]

/-- The bytes behind a program can only make its last instruction longer. -/
theorem next_le_next_append (h : pc < p.size) : p.next pc ≤ (p ++ q).next pc := by
  have hop : (p ++ q).opcode? pc = p.opcode? pc := opcode?_append_left h
  unfold next operandCount
  rw [hop]
  split
  next =>
    by_cases hcount : pc + 1 < p.size
    · exact Nat.le_of_eq (by rw [byte?_append_left hcount])
    · have hnone : p.byte? (pc + 1) = none := Array.getElem?_eq_none (Nat.not_lt.1 hcount)
      rw [hnone]
      simp
  next => exact Nat.le_refl _
  next => exact Nat.le_refl _

private theorem ofList_toList_append (p : Program) (bytes : List UInt8) :
    ofList (p.toList ++ bytes) = p ++ ofList bytes := by
  show (⟨_⟩ : Program) = ⟨_⟩
  simp [toList, ofList]

private theorem opcode?_zeros (count pc : Nat) :
    (ofList (List.replicate count 0)).opcode? pc = none := by
  have hbyte : (ofList (List.replicate count 0)).byte? pc = (List.replicate count 0)[pc]? :=
    List.getElem?_toArray
  rw [opcode?, hbyte, List.getElem?_replicate]
  split <;> rfl

/-- Behind a program only unknown bytes follow if the bytes put there are such. -/
theorem silent_append (hq : ∀ pc, q.opcode? pc = none) (hpc : p.size ≤ pc) :
    (p ++ q).Silent pc := by
  refine silent_of_unknown _ pc fun x hx => ?_
  rw [opcode?, byte?_append_right (Nat.le_trans hpc hx)]
  exact hq _

private theorem silent_append_cut {s : Nat} (hq : ∀ pc, q.opcode? pc = none) (hin : s < p.size)
    (hcut : p.size < p.next s) : (p ++ q).Silent ((p ++ q).next s) :=
  silent_append hq (Nat.le_trans (Nat.le_of_lt hcut) (next_le_next_append hin))

end Program

namespace Embedding
open Program

def Open (cause : Fault.Cause) : Prop :=
  cause = .missingOperand ∨ cause = .missingReturn ∨ cause = .missingClause ∨ cause = .unendedClause

def appended (p q : Program) : Embedding p (p ++ q) where
  place := id
  resume := id
  Spared := Open
  resume_zero := rfl
  slides {a} _ := .refl a
  byte?_place hb := (byte?_append_left (lt_size_of_byte? hb)).trans hb
  missing _ := .inr (.inl rfl)
  place_add _ _ := rfl
  leave _ _ := rfl
  cut _ _ := .inr (by simp [Fault.CoversScans, Open])
  finish _ := .inr (by simp [Fault.CoversScans, Open])

def padded (p : Program) {q : Program} (hq : ∀ pc, q.opcode? pc = none) : Embedding p (p ++ q) :=
  { appended p q with
    Spared := fun cause => cause = .missingOperand
    missing := fun _ => .inr rfl
    cut := fun {s} hs hcut => .inl (silent_append_cut hq (p.mem_walk_bounds 0 s hs).2 hcut)
    finish := fun _ => .inl (silent_append hq (Nat.le_refl _)) }

/-- A state holds the same positions where all instructions keep theirs. -/
theorem machine_of_id {p p' : Program} {e : Embedding p p'} (hplace : e.place = id)
    (hresume : e.resume = id) (m : Machine) (pc : Nat) : e.machine m pc = { m with pc } := by
  have hscope : e.scope = id := by
    funext s
    rw [scope, hplace]
    rfl
  simp [machine, hresume, hscope, Slots.map_id]

private theorem machine_appended {p q : Program} {m : Machine} {pc : Nat} (h : m.pc = pc) :
    (appended p q).machine m pc = m := by
  rw [machine_of_id rfl rfl, ← h]

end Embedding

private theorem Exit.moved_id (exit : Exit) : exit.moved id = exit := by
  cases exit <;> rfl

def Exit.Settled : Exit → Prop
  | .offEnd => False
  | .halted => True
  | .returned => True
  | .faulted f =>
    match f.cause with
    | .stackUnderflow | .undefinedVariable | .undefinedFunction | .misplacedClause
    | .unhandled _ => True
    | .missingOperand | .missingReturn | .missingClause | .unendedClause => False

namespace Machine
open Program

variable {p q : Program} {exit : Exit} {m : Machine} {text : String}

private theorem endsBy_append (h : EndsBy p exit m text) (hsettled : exit.Settled) :
    EndsBy (p ++ q) exit m text := by
  have hexit : exit ≠ .offEnd := by
    rintro rfl
    exact hsettled
  have hspared : ∀ f, exit = .faulted f → ¬ Embedding.Open f.cause := by
    rintro f rfl hopen
    rcases hopen with hcause | hcause | hcause | hcause <;> simp [Exit.Settled, hcause] at hsettled
  obtain ⟨pc, hpc, hends⟩ := (Embedding.appended p q).endsBy h hexit hspared
  have hmoved : exit.moved (Embedding.appended p q).place = exit := exit.moved_id
  have hmachine : (Embedding.appended p q).machine m ((Embedding.appended p q).place pc + 1) = m :=
    Embedding.machine_appended hpc
  rwa [hmoved, hmachine] at hends

private theorem path_append_offEnd (h : EndsBy p .offEnd m text) :
    m.pc = p.size ∧ ∃ n events, Path (p ++ q) n initial events text m := by
  obtain ⟨hend, n, events, hpath⟩ := (Embedding.appended p q).path_offEnd h
  have hmachine : (Embedding.appended p q).machine m ((Embedding.appended p q).place p.size) = m :=
    Embedding.machine_appended hend
  rw [hmachine] at hpath
  exact ⟨hend, n, events, hpath⟩

/-- A run that is settled stays as it is whatever follows the program. One that comes to the end of the
program goes on from there with what follows. -/
theorem run_append (p q : Program) (fuel : Nat) (trace : Trace) (r : Run)
    (hrun : initial.run p fuel .unlimited trace = some r) :
    (∃ exit text, EndsBy p exit r.machine text ∧ r.ending = exit.ending) ∧
    ∀ exit text, EndsBy p exit r.machine text →
      (exit.Settled →
        ∃ fuel' r', initial.run (p ++ q) fuel' .unlimited trace = some r' ∧
          r'.out.received = r.out.received ∧ r'.ending = r.ending ∧ r'.machine = r.machine) ∧
      (exit = .offEnd →
        r.machine.pc = p.size ∧ (p ++ q).byte? r.machine.pc = q.byte? 0 ∧
          ∃ n trace', ∀ fuel', initial.run (p ++ q) (n + fuel') .unlimited trace =
            runFrom (p ++ q) fuel' r.machine r.out trace') := by
  constructor
  · obtain ⟨exit, text, hends, -, hending⟩ := endsBy_of_run hrun
    exact ⟨exit, text, hends, hending⟩
  · intro exit text hends
    obtain ⟨trace₁, -, hunique⟩ := hends.run_eq trace
    have hr := hunique fuel r hrun
    have hout : r.out = Sink.unlimited.append text := by rw [hr]
    have hending : r.ending = exit.ending := by rw [hr]
    refine ⟨fun hsettled => ?_, ?_⟩
    · obtain ⟨trace₂, ⟨fuel', hrun'⟩, -⟩ := (endsBy_append hends hsettled).run_eq trace
      exact ⟨fuel', _, hrun', by rw [hout], hending.symm, rfl⟩
    · rintro rfl
      obtain ⟨hend, n, events, hpath⟩ := path_append_offEnd (q := q) hends
      refine ⟨hend, ?_, n, (trace.record [.started (p ++ q).size]).record events, fun fuel' => ?_⟩
      · rw [hend, byte?_append_right (Nat.le_refl _), Nat.sub_self]
      · rw [run, reset, hpath.runFrom_add rfl, hout]

/-- A scope whose clause is cut off behind its first byte, and a halt before the clause is reached. -/
def cutClause : Program := .ofList [0x70, 0x32, 0x71]

private theorem cutClause_endsBy :
    EndsBy cutClause .halted { initial with pc := 2, scopes := [⟨2, 0, 0, [], false⟩] } "" := by
  have hclause : cutClause.firstClause? 1 = some 2 := by decide +kernel
  have hopen : initial.dispatch cutClause 0x70 =
      .next { initial with pc := 1, scopes := [⟨2, 0, 0, [], false⟩] }
        [.dispatched 0 .openTry 0] "" := by
    show (openTry cutClause { initial with pc := 1 }).after (.dispatched 0 .openTry 0) = _
    simp only [openTry, hclause]
    rfl
  exact ⟨1, _, _, .one rfl hopen, .halted rfl⟩

/-- The bytes that follow may complete a clause that a scan has found. -/
theorem run_append_cutClause :
    ∃ fuel r fuel' r', initial.run cutClause fuel .unlimited (.start none) = some r ∧
      EndsBy cutClause .halted r.machine "" ∧ Exit.Settled .halted ∧
      initial.run (cutClause ++ .ofList [1, 3, 0x72]) fuel' .unlimited (.start none) = some r' ∧
      r'.out.received = r.out.received ∧ r'.ending = r.ending ∧ r'.machine = r.machine := by
  obtain ⟨trace, ⟨fuel, hrun⟩, -⟩ := cutClause_endsBy.run_eq (.start none)
  obtain ⟨-, hends⟩ := run_append cutClause (.ofList [1, 3, 0x72]) fuel (.start none) _ hrun
  obtain ⟨fuel', r', hrun', hsame⟩ := (hends .halted "" cutClause_endsBy).1 trivial
  exact ⟨fuel, _, fuel', r', hrun, cutClause_endsBy, trivial, hrun', hsame⟩

/-- Unknown bytes behind a program are as good as none, but where they stand for an operand. -/
theorem endsBy_append_unknown (hq : ∀ pc, q.opcode? pc = none) (h : EndsBy p exit m text)
    (hoperand : ∀ f, exit = .faulted f → f.cause ≠ .missingOperand) :
    ∃ pc, EndsBy (p ++ q) exit { m with pc } text := by
  have hscans : ¬ Fault.CoversScans (Embedding.padded p hq).Spared := by
    simp [Fault.CoversScans, Embedding.padded]
  obtain ⟨pc, hends⟩ := (Embedding.padded p hq).endsBy_of_scans hscans h hoperand
  have hmoved : exit.moved (Embedding.padded p hq).place = exit := exit.moved_id
  rw [hmoved, Embedding.machine_of_id rfl rfl] at hends
  exact ⟨pc, hends⟩

/-- A program can be hidden in every image that is large enough and fits in memory. What is found there are its bytes
and zeros, and unless an operand was missing these do what the program does. -/
theorem run_reveal_conceal (p : Program) (width height : Nat) (cover : List UInt8)
    (hfit : p.size ≤ width * height) (hfits : width * height * 4 < Pixel.wordSize)
    (hcover : cover.length = 4 * (width * height)) :
    ∃ image,
      Pixel.conceal (Pixel.padded p.toList (width * height)) cover width height = .ok image ∧
      Pixel.reveal image = p.toList ++ List.replicate (width * height - p.size) 0 ∧
      ∀ fuel trace r, initial.run p fuel .unlimited trace = some r →
        (∀ f, r.ending = .faulted f → f.cause ≠ .missingOperand) →
        ∃ fuel' r',
          initial.run (.ofList (Pixel.reveal image)) fuel' .unlimited trace = some r' ∧
          r'.out.received = r.out.received ∧ r'.ending = r.ending ∧
          r'.report .unlimited = r.report .unlimited ∧
          r'.machine = { r.machine with pc := r'.machine.pc } := by
  have hlength : p.toList.length = p.size := Array.length_toList
  have hpadded : (Pixel.padded p.toList (width * height)).length = width * height := by
    simp only [Pixel.padded, List.length_append, List.length_replicate]
    omega
  obtain ⟨image, hconceal, hreveal⟩ := Pixel.exists_conceal hfits hpadded hcover
  rw [Pixel.padded, hlength] at hreveal
  refine ⟨image, hconceal, hreveal, fun fuel trace r hrun hoperand => ?_⟩
  obtain ⟨exit, text, hends, hout, hending⟩ := endsBy_of_run hrun
  obtain ⟨pc, hends'⟩ := endsBy_append_unknown (opcode?_zeros (width * height - p.size)) hends
    fun f hf => hoperand f (by rw [hending, hf, Exit.ending])
  obtain ⟨trace', ⟨fuel', hrun'⟩, -⟩ := hends'.run_eq trace
  rw [hreveal, ofList_toList_append]
  refine ⟨fuel', _, hrun', by rw [hout], hending.symm, ?_, rfl⟩
  simp only [Run.report, Run.flushed, hout, hending]

/-- A clause that is cut off in the program is complete in a white image. -/
theorem run_reveal_conceal_cutClause :
    cutClause.size ≤ 2 * 2 ∧ ∃ image fuel r fuel' r',
      Pixel.conceal (Pixel.padded cutClause.toList (2 * 2)) (List.replicate 16 255) 2 2 =
        .ok image ∧
      initial.run cutClause fuel .unlimited (.start none) = some r ∧
      initial.run (.ofList (Pixel.reveal image)) fuel' .unlimited (.start none) = some r' ∧
      r'.ending = r.ending ∧ r'.machine.scopes = [⟨2, 0, 0, [], false⟩] := by
  obtain ⟨trace, ⟨fuel, hrun⟩, -⟩ := cutClause_endsBy.run_eq (.start none)
  obtain ⟨image, hconceal, -, hruns⟩ :=
    run_reveal_conceal cutClause 2 2 (List.replicate 16 255) (by decide) (by decide) (by decide)
  obtain ⟨fuel', r', hrun', -, hending, -, hmachine⟩ := hruns fuel (.start none) _ hrun nofun
  refine ⟨by decide, image, fuel, _, fuel', r', hconceal, hrun, hrun', hending, ?_⟩
  rw [hmachine]

end Machine
end PixelCode
