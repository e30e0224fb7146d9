import PixelCode.Proofs.Assembly.RoundTrip
import PixelCode.Proofs.Machine.Alignment

/-! Operand bytes are never executed: what the loop dispatches is what the text of the program has on a
line of its own. -/
namespace PixelCode

namespace Assembly
open Program

/-- A line of the text of a program starts at a position. The lines before it assemble to the bytes
before the position, and it assembles to the instruction there; an instruction that is cut off has
its bytes on the lines that are left, one each. -/
def LineStartsAt (p : Program) (pc : Nat) : Prop :=
  ∃ before line after,
    Text.lines (disassemble p).toList = before ++ line :: after ∧
    linesBytes 1 before = .ok (p.toList.take pc) ∧
    (p.next pc ≤ p.size ∧ lineBytes line = .ok (p.slice pc (p.next pc)) ∨
      p.size < p.next pc ∧
        line :: after = (p.toList.drop pc).map fun b => (Statement.raw b).text.toList)

variable {p : Program} {pc : Nat}

/-- The statements of a program split at every boundary of its instructions. -/
theorem statementsFrom_of_boundary (h : p.Boundary pc) :
    ∃ before, statementsFrom p 0 = before ++ statementsFrom p pc ∧
      before.flatMap Statement.encode = p.toList.take pc := by
  obtain ⟨hsteps, hle⟩ := h
  induction hsteps with
  | refl => exact ⟨[], rfl, rfl⟩
  | @next pc _ hin ih =>
    obtain ⟨before, hsplit, hbytes⟩ := ih (Nat.le_of_lt hin)
    obtain ⟨b, hb⟩ := byte?_eq_some_of_lt hin
    rw [statementsFrom_of_complete hb hle] at hsplit
    refine ⟨before ++ [statementAt p pc b], by simpa using hsplit, ?_⟩
    rw [List.flatMap_append, hbytes, take_eq_take_append_slice (Nat.le_of_lt (p.lt_next pc)),
      ← (statementAt_spec hb hle).2]
    simp

private theorem lineStartsAt_of_boundary (h : p.Boundary pc) (hin : pc < p.size) :
    LineStartsAt p pc := by
  obtain ⟨before, hsplit, hbytes⟩ := statementsFrom_of_boundary h
  obtain ⟨b, hb⟩ := byte?_eq_some_of_lt hin
  have hcomplete := (statementsFrom_spec p 0).1
  rw [hsplit] at hcomplete
  have hlines : Text.lines (disassemble p).toList = (before ++ statementsFrom p pc).map (·.text.toList) :=
    hsplit ▸ lines_listingOf (statementsFrom p 0)
  have hbefore : linesBytes 1 (before.map (·.text.toList)) = .ok (p.toList.take pc) :=
    hbytes ▸ linesBytes_text (fun s hs => hcomplete s (List.mem_append_left _ hs)) 1
  rw [List.map_append] at hlines
  by_cases hnext : p.next pc ≤ p.size
  · rw [statementsFrom_of_complete hb hnext, List.map_cons] at hlines
    obtain ⟨hstatement, hencode⟩ := statementAt_spec hb hnext
    exact ⟨_, _, _, hlines, hbefore, .inl ⟨hnext, hencode ▸ lineBytes_text hstatement⟩⟩
  · have htruncated := Nat.not_le.1 hnext
    have hraw : p.toList.drop pc = b :: p.toList.drop (pc + 1) := by
      rw [← slice_size, ← slice_size, slice_cons hb hin]
    rw [statementsFrom_of_truncated hb htruncated, List.map_map, hraw, List.map_cons] at hlines
    refine ⟨_, _, _, hlines, hbefore, .inr ⟨htruncated, ?_⟩⟩
    rw [hraw, List.map_cons]
    rfl

end Assembly

namespace Machine

/-- At every head of the loop of every run the program counter is within the program or at its end,
and what is fetched there lies on the linear walk and starts a line of the text of the program. -/
theorem fetch_on_walk (p : Program) (m : Machine) (h : Reachable p m) :
    m.pc ≤ p.size ∧
      ∀ b, p.byte? m.pc = some b → m.pc ∈ p.walk 0 ∧ Assembly.LineStartsAt p m.pc := by
  have hpc := h.aligned.pc
  refine ⟨hpc.le_size, fun b hb => ?_⟩
  have hin := Program.lt_size_of_byte? hb
  exact ⟨hpc.mem_walk hin, Assembly.lineStartsAt_of_boundary hpc hin⟩

def disguised : Program := .ofList [0x52, 0x51, 0x01, 0x50, 0x51, 0x50, 0x51]

private theorem disguised_called :
    ∃ m, Reachable disguised m ∧ m.calls = #[7] ∧ m.pc = 2 := by
  have hret : disguised.firstReturn? 2 = some 4 := by decide +kernel
  have hdefine : initial.dispatch disguised 0x52 =
      .next { initial with pc := 5, functions := initial.functions.set 0x51 2 }
        [.dispatched 0 .func 0, .registered 0x51 2] "" := by
    have hid : disguised.byte? 1 = some 0x51 := rfl
    show (define disguised { initial with pc := 1 }).after (.dispatched 0 .func 0) = _
    simp only [define, withOperand, hid, hret]
    rfl
  have hcall : ({ initial with
        pc := 5
        functions := initial.functions.set 0x51 2 } : Machine).dispatch disguised 0x50 =
      .next { initial with
        pc := 2
        functions := initial.functions.set 0x51 2
        calls := #[7] } [.dispatched 5 .call 0] "" := rfl
  exact ⟨_, ⟨2, _, _, .step rfl hdefine (.one rfl hcall)⟩, rfl, rfl⟩

/-- The block of such a function is fetched in a call, and where its line starts. -/
theorem fetch_on_walk_called :
    ∃ m, Reachable disguised m ∧ m.calls = #[7] ∧ disguised.byte? m.pc = some 0x01 ∧
      m.pc ∈ disguised.walk 0 ∧ Assembly.LineStartsAt disguised m.pc := by
  obtain ⟨m, hreachable, hcalls, hpc⟩ := disguised_called
  have hbyte : disguised.byte? m.pc = some 0x01 := by rw [hpc]; rfl
  exact ⟨m, hreachable, hcalls, hbyte, (fetch_on_walk disguised m hreachable).2 _ hbyte⟩

end Machine
end PixelCode
