import PixelCode.Proofs.Assembly.Comment
import PixelCode.Proofs.Numbered
import PixelCode.Proofs.Text.Feeds

/-! Assembly goes line by line. What two texts assemble to follows from what each of them does, and an error is
that of the first line which does not assemble alone. On that line a word that is meant for a number and is none
comes before everything else that is wrong. -/
namespace PixelCode.Assembly

def Error.later (count : Nat) (e : Error) : Error := { e with line := count + e.line }

section Lines

private theorem linesBytes_eq (number : Nat) (ls : List (List Char)) :
    linesBytes number ls = (readNumbered lineBytes number ls).mapError fun e => ⟨e.1, e.2⟩ := by
  induction ls generalizing number with
  | nil => rfl
  | cons line ls ih =>
    rw [linesBytes, readNumbered]
    cases lineBytes line with
    | error cause => rfl
    | ok bytes =>
      simp only [ih]
      cases readNumbered lineBytes (number + 1) ls <;> rfl

private theorem linesBytes_append (number : Nat) (ls more : List (List Char)) :
    linesBytes number (ls ++ more) = (linesBytes number ls >>= fun bytes =>
      ((linesBytes number more).mapError (Error.later ls.length)).map (bytes ++ ·)) := by
  rw [linesBytes_eq, linesBytes_eq, linesBytes_eq, readNumbered_append, Nat.add_comm, readNumbered_add]
  cases readNumbered lineBytes number ls with
  | error e => rfl
  | ok bytes => cases readNumbered lineBytes number more <;> rfl

/-- A carriage return at the end of a line is one more blank, or belongs to its comment. -/
theorem words_code_return (line : List Char) : Text.words (code (line ++ ['\r'])) = Text.words (code line) := by
  by_cases hcode : code line = line
  · have hscan := codeFrom_append hcode ['\r']
    have hreturn (quoted : Bool) : codeFrom quoted ['\r'] = ['\r'] := by cases quoted <;> rfl
    rw [hreturn] at hscan
    rw [code, hscan, hcode, Text.words, Text.pieces_append (by decide)]
    exact List.append_nil _
  · -- The line has a comment already, and the carriage return is part of it.
    rw [code_append_of_ne hcode]

private theorem lineBytes_return (line : List Char) :
    lineBytes (line ++ ['\r']) = lineBytes line := by
  rw [lineBytes, lineBytes, statement, statement, words_code_return]

/-- The last line of a text may as well end in a line feed, with or without a carriage return. -/
theorem linesBytes_lastLine (number : Nat) (last : List Char) :
    linesBytes number (Text.lastLine last) = linesBytes number [Text.withoutReturn last] := by
  unfold Text.lastLine
  split
  next hempty =>
    rw [hempty]
    rfl
  next => simp only [linesBytes, Text.apply_withoutReturn lineBytes_return]

/-- The lines of two texts that a line feed joins. -/
theorem linesBytes_join (cs rest : List Char) :
    linesBytes 1 (Text.lines (cs ++ '\n' :: rest)) = (linesBytes 1 (Text.lines cs) >>= fun bytes =>
      ((linesBytes 1 (Text.lines rest)).mapError (Error.later (cs.count '\n' + 1))).map (bytes ++ ·)) := by
  obtain ⟨before, last, hlength, hlines, hjoined⟩ := Text.lines_join cs rest
  have hfirst : linesBytes 1 (Text.lines cs) = linesBytes 1 (before ++ [Text.withoutReturn last]) := by
    rw [hlines, linesBytes_append, linesBytes_append, linesBytes_lastLine]
  rw [hjoined, List.append_cons, linesBytes_append, ← hfirst, List.length_append, List.length_singleton, hlength]

/-- An error in some lines is that of the first of them which does not assemble. -/
theorem exists_failing_line {number : Nat} {ls : List (List Char)} {e : Error}
    (h : linesBytes number ls = .error e) :
    ∃ before line after, ls = before ++ line :: after ∧ e.line = number + before.length ∧
      (∀ l ∈ before, ∃ bytes, lineBytes l = .ok bytes) ∧ lineBytes line = .error e.cause := by
  rw [linesBytes_eq] at h
  obtain ⟨failure, hread, rfl⟩ := mapError_eq_error_iff.1 h
  exact exists_failing_item hread

end Lines

section Words

/-- A word that starts like a number, with a digit or an apostrophe, and is no literal. -/
def Misspelt (word : List Char) : Prop := startsNumber word = true ∧ ∀ n, ¬ Literal word n

/-- The misspelt words are exactly those that stand for nothing. -/
theorem misspelt_iff {word : List Char} : Misspelt word ↔ ∀ token, ¬ StandsFor word token := by
  constructor
  · rintro ⟨hstarts, hliteral⟩ (name | n) hstands
    · rw [hstands.startsNumber_eq_false] at hstarts
      cases hstarts
    · exact hliteral n (literal_iff.2 hstands)
  · intro hnone
    refine ⟨?_, fun n hliteral => hnone _ hliteral.standsFor⟩
    cases hstarts : startsNumber word with
    | true => rfl
    | false => exact absurd (standsFor_upper hstarts) (hnone _)

/-- The first misspelt word of a line is reported, whatever the other words are. -/
theorem tokens_of_misspelt {before after : List (List Char)} {word : List Char}
    (hbefore : ∀ w ∈ before, ¬ Misspelt w) (hword : Misspelt word) :
    tokens (before ++ word :: after) = .error (.invalidNumber (String.ofList word)) := by
  induction before with
  | nil =>
    have hnone : Token.ofWord? word = none := Option.eq_none_iff_forall_ne_some.2 (misspelt_iff.1 hword)
    rw [List.nil_append, tokens, hnone]
  | cons w before ih =>
    obtain ⟨hw, hbefore⟩ := List.forall_mem_cons.1 hbefore
    obtain ⟨token, htoken⟩ := not_forall_not.1 (mt misspelt_iff.2 hw)
    have hsome : Token.ofWord? w = some token := htoken
    rw [List.cons_append, tokens, hsome, ih hbefore]
    rfl

private theorem lineBytes_of_misspelt {line word : List Char} {before after : List (List Char)}
    (hwords : Text.words (code line) = before ++ word :: after) (hbefore : ∀ w ∈ before, ¬ Misspelt w)
    (hword : Misspelt word) : lineBytes line = .error (.invalidNumber (String.ofList word)) := by
  rw [lineBytes, statement, hwords, tokens_of_misspelt hbefore hword]
  rfl

end Words

/-- Two texts that a line feed joins assemble one after the other. -/
theorem assemble_join (t₁ t₂ : String) :
    assemble (t₁ ++ "\n" ++ t₂) = (assemble t₁ >>= fun p₁ =>
      ((assemble t₂).mapError (Error.later (t₁.toList.count '\n' + 1))).map fun p₂ =>
        .ofList (p₁.toList ++ p₂.toList)) := by
  rw [assemble, Text.toList_join, linesBytes_join, assemble, assemble]
  cases linesBytes 1 (Text.lines t₁.toList) with
  | error e => rfl
  | ok bytes => cases linesBytes 1 (Text.lines t₂.toList) <;> rfl

/-- What a line of a text assembles to on its own. -/
theorem assemble_of_mem_lines {text line : List Char} (h : line ∈ Text.lines text) :
    assemble (String.ofList line) = ((lineBytes line).mapError (Error.mk 1)).map .ofList := by
  have hfeed : '\n' ∉ (String.ofList line).toList := by
    rw [String.toList_ofList]
    exact Text.feed_not_mem_of_mem_lines h
  rw [assemble_line hfeed, String.toList_ofList]

/-- Assembly goes line by line. Of two texts that a line feed joins, an error in the first is the error of both,
and otherwise the bytes of the first are followed by those of the second, whose errors are reported as many lines
further down as the first text has. Every error is that of the first line that does not assemble on its own; and
if there is a word on that line that starts like a number and is none, the first such word is the error. -/
theorem assemble_by_line :
    (∀ t₁ t₂ : String,
      (∀ e, assemble t₁ = .error e → assemble (t₁ ++ "\n" ++ t₂) = .error e) ∧
      (∀ p₁ p₂, assemble t₁ = .ok p₁ → assemble t₂ = .ok p₂ →
        assemble (t₁ ++ "\n" ++ t₂) = .ok (.ofList (p₁.toList ++ p₂.toList))) ∧
      ∀ p₁ e, assemble t₁ = .ok p₁ → assemble t₂ = .error e →
        assemble (t₁ ++ "\n" ++ t₂) = .error ⟨t₁.toList.count '\n' + 1 + e.line, e.cause⟩) ∧
    ∀ (t : String) (e : Error), assemble t = .error e →
      ∃ before line after, Text.lines t.toList = before ++ line :: after ∧ e.line = before.length + 1 ∧
        (∀ l ∈ before, ∃ p, assemble (String.ofList l) = .ok p) ∧
        assemble (String.ofList line) = .error ⟨1, e.cause⟩ ∧
        ∀ words word more, Text.words (code line) = words ++ word :: more → (∀ w ∈ words, ¬ Misspelt w) →
          Misspelt word → e.cause = .invalidNumber (String.ofList word) := by
  refine ⟨fun t₁ t₂ => ⟨?_, ?_, ?_⟩, ?_⟩
  · intro e h
    rw [assemble_join, h]
    rfl
  · intro p₁ p₂ h₁ h₂
    rw [assemble_join, h₁, h₂]
    rfl
  · intro p₁ e h₁ h₂
    rw [assemble_join, h₁, h₂]
    rfl
  · intro t e h
    obtain ⟨before, line, after, hlines, hnumber, hbefore, hfailing⟩ := exists_failing_line (map_eq_error_iff.1 h)
    refine ⟨before, line, after, hlines, by rw [hnumber, Nat.add_comm], ?_, ?_, ?_⟩
    · intro l hl
      obtain ⟨bytes, hbytes⟩ := hbefore l hl
      have hmem : l ∈ Text.lines t.toList := hlines ▸ List.mem_append_left _ hl
      rw [assemble_of_mem_lines hmem, hbytes]
      exact ⟨_, rfl⟩
    · have hmem : line ∈ Text.lines t.toList := hlines ▸ List.mem_append_right _ List.mem_cons_self
      rw [assemble_of_mem_lines hmem, hfailing]
      rfl
    · intro words word more hwords hspelt hmisspelt
      rw [lineBytes_of_misspelt hwords hspelt hmisspelt] at hfailing
      exact (Except.error.inj hfailing).symm

/-- Of a name that is no instruction and a number without digits behind it, the number is reported. A text before
it, which ends in a carriage return, only moves the line. -/
theorem assemble_by_line_numberFirst :
    assemble "PUSH 1\r\nHALT\r" = .ok (.ofList [0x01, 1, 0x32]) ∧
      assemble "\nFOO 0x" = .error ⟨2, .invalidNumber "0x"⟩ ∧
      Text.words (code "FOO 0x".toList) = ["FOO".toList] ++ "0x".toList :: [] ∧
      ¬ Misspelt "FOO".toList ∧ Misspelt "0x".toList ∧
      assemble ("PUSH 1\r\nHALT\r" ++ "\n" ++ "\nFOO 0x") = .error ⟨4, .invalidNumber "0x"⟩ := by
  have hfirst : assemble "PUSH 1\r\nHALT\r" = .ok (.ofList [0x01, 1, 0x32]) := by decide
  have hsecond : ∃ cause, assemble "\nFOO 0x" = .error ⟨2, cause⟩ := ⟨.invalidNumber "0x", by decide⟩
  have hwords : Text.words (code "FOO 0x".toList) = ["FOO".toList] ++ "0x".toList :: [] := by decide
  have hname : ¬ Misspelt "FOO".toList := fun h => absurd h.1 (by decide)
  have hnumber : Misspelt "0x".toList := by
    have hnone : Token.ofWord? "0x".toList = none := by decide
    exact misspelt_iff.2 (Option.eq_none_iff_forall_ne_some.1 hnone)
  obtain ⟨cause, hsecond⟩ := hsecond
  obtain ⟨before, line, after, hlines, hbefore, -, -, hcause⟩ := assemble_by_line.2 _ _ hsecond
  have hline : line = "FOO 0x".toList := by
    have hat : (Text.lines "\nFOO 0x".toList)[1]? = some "FOO 0x".toList := by decide
    have hlength : before.length = 1 := (Nat.succ.inj hbefore).symm
    rw [hlines, ← hlength, List.getElem?_append_right (Nat.le_refl _), Nat.sub_self] at hat
    exact Option.some.inj hat
  rw [hline] at hcause
  have hinvalid : cause = .invalidNumber "0x" := hcause _ _ _ hwords (by simpa using hname) hnumber
  rw [hinvalid] at hsecond
  exact ⟨hfirst, hsecond, hwords, hname, hnumber, (assemble_by_line.1 _ _).2.2 _ _ hfirst hsecond⟩

end PixelCode.Assembly
