import PixelCode.Proofs.Assembly.Reading
import PixelCode.Proofs.Assembly.RoundTrip
import PixelCode.Proofs.Machine.Whole

/-! A text without raw bytes has one instruction to a line: the linear walk, the text of the program and
the machine find the lines again. -/
namespace PixelCode.Assembly
open Program

def Statement.IsWhole (s : Statement) : Prop := s.Complete ∧ ∀ b, s ≠ .raw b

inductive Spells (p : Program) : Nat → List Statement → Prop where
  | nil : Spells p p.size []
  | cons {pc : Nat} {op : Opcode} {s : Statement} {ss : List Statement} :
    p.opcode? pc = some op → statementAt p pc op.byte = s → p.next pc = pc + s.encode.length →
    p.next pc ≤ p.size → Spells p (p.next pc) ss → Spells p pc (s :: ss)

variable {p : Program} {pc : Nat} {s : Statement} {ss : List Statement}

private theorem statementAt_of_clause {byte : UInt8} (h : Opcode.ofByte? byte = some .clause) :
    statementAt p pc byte = .instruction .clause (p.slice (pc + 1) (p.next pc)).tail := by
  rw [statementAt, h]
  rfl

private theorem statementAt_of_ne {byte : UInt8} {op : Opcode} (h : Opcode.ofByte? byte = some op)
    (hop : op ≠ .clause) : statementAt p pc byte = .instruction op (p.slice (pc + 1) (p.next pc)) := by
  rw [statementAt, h]
  split
  next hclause =>
    cases hclause
    exact absurd rfl hop
  next heq =>
    cases heq
    rfl
  next heq => cases heq

/-- An instruction is read back from its bytes, whatever follows them. -/
theorem statementAt_of_holdsAt (hs : s.IsWhole) (h : p.HoldsAt pc s.encode) :
    ∃ op, p.opcode? pc = some op ∧ statementAt p pc op.byte = s ∧
      p.next pc = pc + s.encode.length := by
  cases s with
  | raw b => exact absurd rfl (hs.2 b)
  | instruction op operands =>
    by_cases hclause : op = .clause
    · subst hclause
      have hop : p.opcode? pc = some .clause := opcode?_of_holdsAt h
      have hcount : (UInt8.ofNat operands.length).toNat = operands.length :=
        UInt8.toNat_ofNat_of_lt' (Nat.lt_succ_of_le hs.1)
      have hnext : p.next pc = pc + 1 + (UInt8.ofNat operands.length :: operands).length := by
        rw [next_of_clause hop h.2.1, hcount, List.length_cons]
        omega
      refine ⟨.clause, hop, ?_, ?_⟩
      · rw [statementAt_of_clause (Opcode.ofByte?_byte .clause), hnext, slice_of_holdsAt h.2,
          List.tail_cons]
      · rw [hnext, Statement.encode]
        simp only [List.length_cons]
        omega
    · rw [Statement.encode_of_ne hclause] at h ⊢
      have hop := opcode?_of_holdsAt h
      have hnext : p.next pc = pc + 1 + operands.length := by
        rw [next_of_opcode? hop hclause, (Statement.complete_iff_of_ne hclause).1 hs.1]
      refine ⟨op, hop, ?_, ?_⟩
      · rw [statementAt_of_ne (Opcode.ofByte?_byte op) hclause, hnext, slice_of_holdsAt h.2]
      · rw [hnext, List.length_cons]
        omega

private theorem encode_ne_nil (s : Statement) : s.encode ≠ [] := by
  unfold Statement.encode
  split <;> exact List.cons_ne_nil _ _

/-- A program that ends with the bytes of some instructions consists of them from there on. -/
theorem spells_of_holdsAt (hss : ∀ s ∈ ss, s.IsWhole)
    (h : p.HoldsAt pc (ss.flatMap Statement.encode))
    (hend : pc + (ss.flatMap Statement.encode).length = p.size) : Spells p pc ss := by
  induction ss generalizing pc with
  | nil =>
    cases hend
    exact .nil
  | cons s ss ih =>
    obtain ⟨hs, hss⟩ := List.forall_mem_cons.1 hss
    rw [List.flatMap_cons] at h hend
    obtain ⟨hfirst, hrest⟩ := holdsAt_append.1 h
    obtain ⟨op, hop, hstatement, hnext⟩ := statementAt_of_holdsAt hs hfirst
    refine .cons hop hstatement hnext ?_ (ih hss ?_ ?_)
    · rw [hnext]
      exact le_size_of_holdsAt hfirst (encode_ne_nil s)
    · rw [hnext]
      exact hrest
    · rw [hnext, ← hend, List.length_append]
      omega

def startsFrom : Nat → List (List UInt8) → List Nat
  | _, [] => []
  | pc, bytes :: rest => pc :: startsFrom (pc + bytes.length) rest

namespace Spells

private theorem walk_eq (h : Spells p pc ss) :
    p.walk pc = startsFrom pc (ss.map Statement.encode) := by
  induction h with
  | nil =>
    rw [walk, if_neg (Nat.lt_irrefl _)]
    rfl
  | cons hop _ hnext _ _ ih =>
    rw [walk, if_pos (lt_size_of_opcode? hop), ih, hnext, List.map_cons, startsFrom]

private theorem walkEnd_eq (h : Spells p pc ss) : p.walkEnd pc = p.size := by
  induction h with
  | nil => rw [walkEnd, if_neg (Nat.lt_irrefl _)]
  | cons hop _ _ _ _ ih => rw [walkEnd, if_pos (lt_size_of_opcode? hop), ih]

private theorem statementsFrom_eq (h : Spells p pc ss) : statementsFrom p pc = ss := by
  induction h with
  | nil =>
    have hout : p.byte? p.size = none := Array.getElem?_eq_none (Nat.le_refl _)
    rw [statementsFrom, hout]
  | cons hop hstatement _ hle _ ih =>
    rw [statementsFrom_of_complete (byte?_of_opcode? hop) hle, hstatement, ih]

theorem of_mem_walk (h : Spells p pc ss) {q : Nat} (hq : q ∈ p.walk pc) :
    (∃ op, p.opcode? q = some op) ∧ p.next q ≤ p.size := by
  induction h with
  | nil =>
    rw [walk, if_neg (Nat.lt_irrefl _)] at hq
    cases hq
  | cons hop _ _ hle _ ih =>
    rw [walk, if_pos (lt_size_of_opcode? hop)] at hq
    rcases List.mem_cons.1 hq with rfl | hq
    · exact ⟨⟨_, hop⟩, hle⟩
    · exact ih hq

theorem whole (h : Spells p 0 ss) : p.Whole where
  opcode _ hq := (h.of_mem_walk hq).1
  fits _ hq := (h.of_mem_walk hq).2

end Spells

def hasCode (line : List Char) : Bool := !(Text.words (code line)).isEmpty

/-- The first word of a line, if it has one, is not the name of the directive for a raw byte. -/
def NotRaw (line : List Char) : Prop :=
  ∀ word ∈ (Text.words (code line)).head?, Text.upper word ≠ byteDirective.toList

instance (line : List Char) : Decidable (NotRaw line) :=
  inferInstanceAs (Decidable (∀ word ∈ (Text.words (code line)).head?, _))

section Lines
variable {line : List Char} {bytes : List UInt8}

private theorem eq_nil_of_not_hasCode (h : lineBytes line = .ok bytes)
    (hcode : hasCode line = false) : bytes = [] := by
  have hwords : Text.words (code line) = [] := by simpa [hasCode] using hcode
  obtain ⟨ts, s, hts, hread, rfl⟩ := lineBytes_eq_ok_iff.1 h
  rw [hwords] at hts
  cases hts
  cases hread
  rfl

/-- A line with code is an instruction, unless it is a raw byte. -/
theorem exists_isWhole_of_hasCode (h : lineBytes line = .ok bytes) (hcode : hasCode line = true)
    (hraw : NotRaw line) : ∃ s : Statement, s.IsWhole ∧ bytes = s.encode := by
  obtain ⟨ts, s, hts, hread, rfl⟩ := lineBytes_eq_ok_iff.1 h
  cases s with
  | none =>
    cases hread
    rw [List.forall₂_nil_right_iff] at hts
    simp [hasCode, hts] at hcode
  | some s =>
    refine ⟨s, ⟨hread.complete, ?_⟩, rfl⟩
    rintro b rfl
    cases hread with
    | raw =>
      obtain ⟨word, rest, hword, -, hwords⟩ := List.forall₂_cons_right_iff.1 hts
      exact hraw word (by rw [hwords]; rfl) hword.upper_eq

/-- The lines with code are instructions that have all the bytes. -/
theorem exists_isWhole_of_forall₂ {lines : List (List Char)} {encodings : List (List UInt8)}
    (h : List.Forall₂ (fun line e => lineBytes line = .ok e) lines encodings)
    (hraw : ∀ line ∈ lines, NotRaw line) :
    ∃ ss : List Statement, (∀ s ∈ ss, s.IsWhole) ∧
      List.Forall₂ (fun s line => lineBytes line = .ok s.encode) ss (lines.filter hasCode) ∧
      encodings.flatten = ss.flatMap Statement.encode := by
  induction h with
  | nil => exact ⟨[], by simp, .nil, rfl⟩
  | @cons line bytes lines encodings hline _ ih =>
    obtain ⟨hfirst, hrest⟩ := List.forall_mem_cons.1 hraw
    obtain ⟨ss, hss, hlines, hflatten⟩ := ih hrest
    cases hcode : hasCode line with
    | false =>
      refine ⟨ss, hss, ?_, ?_⟩
      · rwa [List.filter_cons_of_neg (by simp [hcode])]
      · rw [List.flatten_cons, eq_nil_of_not_hasCode hline hcode, List.nil_append, hflatten]
    | true =>
      obtain ⟨s, hs, rfl⟩ := exists_isWhole_of_hasCode hline hcode hfirst
      refine ⟨s :: ss, List.forall_mem_cons.2 ⟨hs, hss⟩, ?_, ?_⟩
      · rw [List.filter_cons_of_pos hcode]
        exact .cons hline hlines
      · rw [List.flatten_cons, List.flatMap_cons, hflatten]

end Lines

/-- A program that was assembled from a text without raw bytes consists of the instructions on the lines
of the text that have code. -/
theorem exists_spells {text : String} (h : assemble text = .ok p)
    (hraw : ∀ line ∈ Text.lines text.toList, NotRaw line) :
    ∃ ss : List Statement, (∀ s ∈ ss, s.IsWhole) ∧
      List.Forall₂ (fun s line => lineBytes line = .ok s.encode) ss
        ((Text.lines text.toList).filter hasCode) ∧
      p = .ofList (ss.flatMap Statement.encode) ∧ Spells p 0 ss := by
  obtain ⟨encodings, hlines, rfl⟩ := assemble_eq_ok_iff_lineBytes.1 h
  obtain ⟨ss, hss, hsource, hflatten⟩ := exists_isWhole_of_forall₂ hlines hraw
  rw [hflatten]
  refine ⟨ss, hss, hsource, rfl, spells_of_holdsAt hss (holdsAt_ofList _) ?_⟩
  rw [Nat.zero_add, Program.size, Program.ofList, List.size_toArray]

private theorem Spells.lines_disassemble (h : Spells p 0 ss) :
    Text.lines (disassemble p).toList = ss.map (·.text.toList) := by
  rw [← h.statementsFrom_eq]
  exact lines_listingOf _

/-- If a text without raw bytes assembles, its lines with code are the instructions of the program. The
linear walk visits where they start, and ends with the program. The text of the program has one line for
each of them, with the same bytes. Every byte that a run comes to is an operation, and no run lacks an
operand. -/
theorem lines_are_instructions (text : String) (p : Program) (h : assemble text = .ok p)
    (hraw : ∀ line ∈ Text.lines text.toList, NotRaw line) :
    (∃ encodings,
        List.Forall₂ (fun line e => lineBytes line = .ok e)
          ((Text.lines text.toList).filter hasCode) encodings ∧
        p = .ofList encodings.flatten ∧ p.walk 0 = startsFrom 0 encodings ∧ p.walkEnd 0 = p.size) ∧
      List.Forall₂
        (fun line source => ∃ bytes, lineBytes line = .ok bytes ∧ lineBytes source = .ok bytes)
        (Text.lines (disassemble p).toList) ((Text.lines text.toList).filter hasCode) ∧
      (∀ m b, Machine.Reachable p m → p.byte? m.pc = some b →
        (∃ op, Opcode.ofByte? b = some op) ∧
          ∀ m' events, m.dispatch p b ≠ .fault m' events .missingOperand) ∧
      ∀ (m : Machine) fuel out trace r f, m.run p fuel out trace = some r →
        r.ending = .faulted f → f.cause ≠ .missingOperand := by
  obtain ⟨ss, hss, hsource, hp, hspells⟩ := exists_spells h hraw
  refine ⟨⟨ss.map Statement.encode, ?_, ?_, hspells.walk_eq, hspells.walkEnd_eq⟩, ?_, ?_, ?_⟩
  · exact List.forall₂_map_right_iff.2 hsource.flip
  · rw [← List.flatMap_def]
    exact hp
  · rw [hspells.lines_disassemble, List.forall₂_map_left_iff]
    refine ((List.forall₂_and_left _ _).2 ⟨hss, hsource⟩).imp ?_
    rintro s line ⟨hs, hline⟩
    exact ⟨s.encode, lineBytes_text hs.1, hline⟩
  · intro m b hm hb
    exact hm.dispatch_of_whole hspells.whole hb
  · intro m fuel out trace r f hrun hfault
    exact Machine.run_ne_missingOperand hspells.whole hrun hfault

def guarded : String :=
  "try ; protect\n PUSH 1\n push 0x0\n DIV\nCATCH DivisionByZero 2\n\n PUSH ';' ; body\n print_char\nEND_TRY"

def guardedProgram : Program :=
  .ofList [0x70, 0x01, 1, 0x01, 0, 0x13, 0x71, 2, 1, 2, 0x01, 0x3b, 0x61, 0x72]

private theorem assemble_guarded : assemble guarded = .ok guardedProgram := by
  decide +kernel

private theorem guarded_notRaw : ∀ line ∈ Text.lines guarded.toList, NotRaw line := by
  decide +kernel

/-- Its nine lines are eight instructions. -/
theorem lines_are_instructions_guarded :
    assemble guarded = .ok guardedProgram ∧ (∀ line ∈ Text.lines guarded.toList, NotRaw line) ∧
      guardedProgram.walkEnd 0 = 14 ∧ (Text.lines (disassemble guardedProgram).toList).length = 8 ∧
      ∀ (m : Machine) fuel out trace r f, m.run guardedProgram fuel out trace = some r →
        r.ending = .faulted f → f.cause ≠ .missingOperand := by
  obtain ⟨⟨encodings, -, -, -, hend⟩, htext, -, hrun⟩ :=
    lines_are_instructions guarded guardedProgram assemble_guarded guarded_notRaw
  have hcount : ((Text.lines guarded.toList).filter hasCode).length = 8 := by decide +kernel
  exact ⟨assemble_guarded, guarded_notRaw, hend, htext.length_eq.trans hcount, hrun⟩

end PixelCode.Assembly
