import PixelCode.Proofs.Machine.Transfer

/-! Unknown bytes are no instructions: one more of them between two instructions changes nothing in a run
but the positions behind it. -/
namespace PixelCode

namespace Program

def insert (p : Program) (gap : Nat) (u : UInt8) : Program := ofList (p.toList.insertIdx gap u)

def shifted (gap pc : Nat) : Nat := if pc < gap then pc else pc + 1

/-- Where control goes on after an insertion at `gap`: at the new byte if it went on there before. -/
def resumed (gap pc : Nat) : Nat := if pc ≤ gap then pc else pc + 1

section Insert
variable {p : Program} {gap : Nat} {u : UInt8}

private theorem byte?_insert (pc : Nat) :
    (p.insert gap u).byte? pc = (p.toList.insertIdx gap u)[pc]? :=
  List.getElem?_toArray

private theorem byte?_insert_shifted (pc : Nat) :
    (p.insert gap u).byte? (shifted gap pc) = p.byte? pc := by
  have hlist : p.byte? pc = p.toList[pc]? := by simp [byte?, toList]
  rw [byte?_insert, hlist, shifted]
  split
  next hlt => rw [List.getElem?_insertIdx_of_lt hlt]
  next hle => rw [List.getElem?_insertIdx_of_gt (by omega), Nat.add_sub_cancel]

private theorem byte?_insert_gap (hgap : gap ≤ p.size) : (p.insert gap u).byte? gap = some u := by
  have hlength : gap ≤ p.toList.length := by simpa [toList, size] using hgap
  rw [byte?_insert, List.getElem?_insertIdx_self, if_pos hlength]

private theorem size_insert (hgap : gap ≤ p.size) : (p.insert gap u).size = p.size + 1 := by
  have hlength : gap ≤ p.toList.length := by simpa [toList, size] using hgap
  have hinsert := List.length_insertIdx_of_le_length hlength u
  simpa [insert, ofList, size, toList] using hinsert

private theorem opcode?_insert_shifted (pc : Nat) :
    (p.insert gap u).opcode? (shifted gap pc) = p.opcode? pc := by
  rw [opcode?, byte?_insert_shifted, opcode?]

private theorem operandCount_insert_shifted {pc : Nat}
    (h : shifted gap (pc + 1) = shifted gap pc + 1) :
    (p.insert gap u).operandCount (shifted gap pc) = p.operandCount pc := by
  rw [operandCount, opcode?_insert_shifted, ← h, byte?_insert_shifted, operandCount]

/-- Control that goes on where the byte stands comes over it to what stood there before. -/
theorem slides_insert (hgap : gap ≤ p.size) (hu : Opcode.ofByte? u = none) (pc : Nat) :
    (p.insert gap u).Slides (resumed gap pc) (shifted gap pc) := by
  rcases Nat.lt_trichotomy pc gap with hlt | rfl | hgt
  · rw [resumed, shifted, if_pos (Nat.le_of_lt hlt), if_pos hlt]
    exact .refl pc
  · rw [resumed, shifted, if_pos (Nat.le_refl pc), if_neg (Nat.lt_irrefl pc)]
    have hbyte := byte?_insert_gap (u := u) hgap
    exact .skip (lt_size_of_byte? hbyte) ((opcode?_of_byte? hbyte).trans hu) (.refl _)
  · rw [resumed, shifted, if_neg (by omega), if_neg (by omega)]
    exact .refl _

end Insert

section Boundary
variable {p : Program} {gap s : Nat} (hgap : p.Boundary gap) (hs : s ∈ p.walk 0)
include hgap hs

/-- An instruction before a boundary ends there at the latest. -/
theorem Boundary.next_le (hlt : s < gap) : p.next s ≤ gap :=
  (mem_walk_iff.1 hs).1.next_le hgap.steps hlt

private theorem shifted_add {k : Nat} (hk : k ≤ p.operandCount s) :
    shifted gap (s + k) = shifted gap s + k := by
  have hnext := hgap.next_le hs
  unfold next at hnext
  unfold shifted
  split <;> split <;> omega

private theorem shifted_next : shifted gap s + 1 + p.operandCount s = resumed gap (p.next s) := by
  have hnext := hgap.next_le hs
  have hlt := p.lt_next s
  unfold next at *
  unfold shifted resumed
  split <;> split <;> omega

private theorem silent_insert_cut {u : UInt8} (hcut : p.size < p.next s) :
    (p.insert gap u).Silent ((p.insert gap u).next (shifted gap s)) := by
  have hbehind : ¬ s < gap := by
    intro hlt
    have := hgap.next_le hs hlt
    have := hgap.le_size
    omega
  have hshift : ∀ pc, s ≤ pc → shifted gap pc = pc + 1 := fun pc hle => if_neg (by omega)
  have hcount : (p.insert gap u).operandCount (shifted gap s) = p.operandCount s :=
    operandCount_insert_shifted (by rw [hshift s (Nat.le_refl s), hshift (s + 1) (by omega)])
  apply Silent.of_size_le
  rw [size_insert hgap.le_size, next, hcount, hshift s (Nat.le_refl s)]
  unfold next at hcut
  omega

end Boundary

private theorem silent_insert_end {p : Program} {gap : Nat} {u : UInt8} (hgap : gap ≤ p.size) :
    (p.insert gap u).Silent (shifted gap p.size) := by
  apply Silent.of_size_le
  apply Nat.le_of_eq
  rw [size_insert hgap, shifted, if_neg (Nat.not_lt.2 hgap)]

end Program

open Program in
/-- The instructions of a program are those of the program with an unknown byte between two of them. -/
def Embedding.insertion {p : Program} {gap : Nat} (hgap : p.Boundary gap) {u : UInt8}
    (hu : Opcode.ofByte? u = none) : Embedding p (p.insert gap u) where
  place := shifted gap
  resume := resumed gap
  Spared _ := False
  resume_zero := if_pos (Nat.zero_le gap)
  slides {a} _ := slides_insert hgap.le_size hu a
  byte?_place {pc _} hb := (byte?_insert_shifted pc).trans hb
  missing {pc} hnone := .inl ((byte?_insert_shifted pc).trans hnone)
  place_add hs hk := shifted_add hgap hs hk
  leave hs _ := shifted_next hgap hs
  cut hs hcut := .inl (silent_insert_cut hgap hs hcut)
  finish _ := .inl (silent_insert_end hgap.le_size)

def Ending.shifted (gap : Nat) : Ending → Ending
  | .faulted f => .faulted { f with pc := Program.shifted gap f.pc }
  | ending => ending

/-- What two runs have in common if the program of the second has one more unknown byte, at `gap`. -/
structure Run.Shifted (gap : Nat) (r r' : Run) : Prop where
  output : r'.out.received = r.out.received
  ending : r'.ending = r.ending.shifted gap
  stack : r'.machine.stack = r.machine.stack
  vars : r'.machine.vars = r.machine.vars
  scopes : r'.machine.scopes.length = r.machine.scopes.length
  calls : r'.machine.calls.size = r.machine.calls.size
  functions (id : UInt8) : r'.machine.functions.get? id =
    (r.machine.functions.get? id).map fun entry => if entry ≤ gap then entry else entry + 1

namespace Machine
variable {p : Program} {gap : Nat} {u : UInt8}

/-- However a run ends, the run of the program with the unknown byte ends with the same state, but for
positions. -/
theorem run_insert (hgap : p.Boundary gap) (hu : Opcode.ofByte? u = none) {fuel : Nat}
    {trace : Trace} {r : Run} (h : initial.run p fuel .unlimited trace = some r) (trace' : Trace) :
    ∃ r', r.Shifted gap r' ∧
      (∃ fuel', initial.run (p.insert gap u) fuel' .unlimited trace' = some r') ∧
      ∀ fuel' r'', initial.run (p.insert gap u) fuel' .unlimited trace' = some r'' → r'' = r' := by
  have hscans : ¬ Fault.CoversScans fun _ => False := fun h => h.1
  obtain ⟨exit, text, hends, hout, hending⟩ := endsBy_of_run h
  obtain ⟨pc, hends'⟩ := (Embedding.insertion hgap hu).endsBy_of_scans hscans hends
    fun _ _ hspared => hspared
  obtain ⟨trace'', hrun, hunique⟩ := hends'.run_eq trace'
  refine ⟨_, ?_, hrun, hunique⟩
  exact
    { output := by rw [hout]
      ending := by rw [hending]; cases exit <;> rfl
      stack := rfl
      vars := rfl
      scopes := List.length_map _
      calls := Array.size_map
      functions := fun id => Slots.get?_map _ _ id }

/-- If the run of a program or of the same program with an unknown byte between two instructions ends,
both end, and but for positions behind the byte they leave the same. -/
theorem run_insert_unknown (p : Program) (gap : Nat) (u : UInt8) (hgap : p.Boundary gap)
    (hu : Opcode.ofByte? u = none) (trace trace' : Trace) :
    (∀ fuel r, initial.run p fuel .unlimited trace = some r →
      ∃ fuel' r', initial.run (p.insert gap u) fuel' .unlimited trace' = some r' ∧
        r.Shifted gap r') ∧
    ∀ fuel' r', initial.run (p.insert gap u) fuel' .unlimited trace' = some r' →
      ∃ fuel r, initial.run p fuel .unlimited trace = some r ∧ r.Shifted gap r' := by
  constructor
  · intro fuel r hrun
    obtain ⟨r', hshifted, ⟨fuel', hrun'⟩, -⟩ := run_insert hgap hu hrun trace'
    exact ⟨fuel', r', hrun', hshifted⟩
  · intro fuel' r' hrun'
    obtain ⟨r, hrun⟩ := (Embedding.insertion hgap hu).run_ends hrun'
    obtain ⟨r'', hshifted, -, hunique⟩ := run_insert hgap hu hrun trace'
    rw [← hunique fuel' r' hrun'] at hshifted
    exact ⟨fuel', r, hrun, hshifted⟩

def hollowSum : Program := .ofList [0x52, 0, 0x10, 0x51, 0x50, 0]

private theorem hollowSum_run :
    ∃ r f, initial.run hollowSum 3 .unlimited (.start none) = some r ∧ r.ending = .faulted f ∧
      r.machine.functions.get? 0 = some 2 ∧ f.pc = 2 := by
  have hrun : (initial.run hollowSum 3 .unlimited (.start none)).any (fun r =>
      r.ending.fault?.any fun f =>
        decide (r.machine.functions.get? 0 = some 2 ∧ f.pc = 2)) = true := by
    decide +kernel
  exact exists_faulted hrun

/-- The byte may stand where a call enters: the entry then points at it, and the fault behind it moves. -/
theorem run_insert_unknown_at_entry :
    hollowSum.Boundary 2 ∧ Opcode.ofByte? 0x99 = none ∧
      ∃ fuel r fuel' r' f, initial.run hollowSum fuel .unlimited (.start none) = some r ∧
        initial.run (hollowSum.insert 2 0x99) fuel' .unlimited (.start none) = some r' ∧
        r.Shifted 2 r' ∧ r'.machine.functions.get? 0 = some 2 ∧
        r.ending = .faulted f ∧ f.pc = 2 ∧ r'.ending = .faulted { f with pc := 3 } := by
  have hgap : hollowSum.Boundary 2 := .of_mem_walk (by decide +kernel)
  obtain ⟨r, f, hrun, hending, hentry, hpc⟩ := hollowSum_run
  obtain ⟨fuel', r', hrun', hshifted⟩ :=
    (run_insert_unknown hollowSum 2 0x99 hgap rfl (.start none) (.start none)).1 3 r hrun
  refine ⟨hgap, rfl, 3, r, fuel', r', f, hrun, hrun', hshifted, ?_, hending, hpc, ?_⟩
  · rw [hshifted.functions, hentry]
    rfl
  · rw [hshifted.ending, hending, Ending.shifted, hpc]
    rfl

end Machine
end PixelCode
