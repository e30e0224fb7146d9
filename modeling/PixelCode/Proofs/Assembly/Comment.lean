import PixelCode.Proofs.Assembly.Grammar

/-! Comments behind a line. The scan for a comment counts apostrophes, and so it agrees with the reading of words
on where a character literal ends, unless the character is itself an apostrophe: such a literal has three of them,
and leaves the scan within quotes. -/
namespace PixelCode.Assembly

def apostropheLiteral : List Char := ['\'', '\'', '\'']

section Scan

/-- Behind a line without a comment the scan goes on, within quotes if the line has an odd number of
apostrophes. -/
theorem codeFrom_append {quoted : Bool} {cs : List Char} (h : codeFrom quoted cs = cs) (rest : List Char) :
    codeFrom quoted (cs ++ rest) = cs ++ codeFrom (!decide (Even (quoted.toNat + cs.count '\''))) rest := by
  induction cs generalizing quoted with
  | nil => cases quoted <;> rfl
  | cons c cs ih =>
    rw [codeFrom] at h
    rw [List.cons_append, codeFrom]
    split at h
    next hquote =>
      have hparity : Even (quoted.toNat + (c :: cs).count '\'') ↔ Even ((!quoted).toNat + cs.count '\'') := by
        rw [hquote, List.count_cons_self]
        exact even_toNat_not.symm
      rw [if_pos hquote, ih (List.cons.inj h).2, List.cons_append]
      simp only [hparity]
    next hquote =>
      split at h
      next => cases h
      next hkept =>
        rw [if_neg hquote, if_neg hkept, ih (List.cons.inj h).2, List.count_cons_of_ne hquote, List.cons_append]

variable {line : List Char}

/-- What follows a comment belongs to it. -/
theorem code_append_of_ne (h : code line ≠ line) (rest : List Char) : code (line ++ rest) = code line := by
  obtain ⟨hall | ⟨comment, hline, heven⟩, hquoted⟩ := isCode_code line
  · exact absurd hall h
  · refine (isCode_iff.1 ⟨.inr ⟨comment ++ rest, ?_, heven⟩, hquoted⟩).symm
    calc line ++ rest = (code line ++ ';' :: comment) ++ rest := by rw [← hline]
      _ = code line ++ ';' :: (comment ++ rest) := by rw [List.append_assoc, List.cons_append]

/-- A semicolon starts a comment behind an even number of apostrophes. -/
theorem code_comment_of_even (h : code line = line) (heven : Even (line.count '\'')) (comment : List Char) :
    code (line ++ ' ' :: ';' :: comment) = line ++ [' '] := by
  have hscan := codeFrom_append h (' ' :: ';' :: comment)
  rw [Bool.toNat_false, Nat.zero_add, decide_eq_true heven] at hscan
  exact hscan

/-- Behind an odd number of apostrophes it is one more character. -/
theorem code_comment_of_odd (h : code line = line) (hodd : ¬ Even (line.count '\'')) (comment : List Char) :
    ∃ more, code (line ++ ' ' :: ';' :: comment) = line ++ ' ' :: ';' :: more := by
  have hscan := codeFrom_append h (' ' :: ';' :: comment)
  rw [Bool.toNat_false, Nat.zero_add, decide_eq_false hodd] at hscan
  exact ⟨codeFrom true comment, hscan⟩

end Scan

section Words
variable {word : List Char} {b : UInt8}

/-- A word without the characters that the scan for a comment looks for, or a character literal. -/
def Shaped (word : List Char) : Prop :=
  (∀ c ∈ word, c ≠ ';' ∧ c ≠ '\'') ∨ ∃ c, word = ['\'', c, '\'']

/-- A shaped word starts with no semicolon. -/
theorem not_shaped_semicolon (word : List Char) : ¬ Shaped (';' :: word) := by
  rintro (hplain | ⟨c, hliteral⟩)
  · exact (hplain ';' List.mem_cons_self).1 rfl
  · cases hliteral

/-- The apostrophes of a shaped word come in pairs, but for the literal of an apostrophe. -/
theorem Shaped.even_iff (h : Shaped word) : Even (word.count '\'') ↔ word ≠ apostropheLiteral := by
  rcases h with hplain | ⟨c, rfl⟩
  · have hnone : '\'' ∉ word := fun hmem => (hplain '\'' hmem).2 rfl
    rw [List.count_eq_zero_of_not_mem hnone]
    refine ⟨fun _ heq => hnone ?_, fun _ => Even.zero⟩
    rw [heq]
    exact List.mem_cons_self
  · by_cases hc : c = '\''
    · subst hc
      decide
    · simp [apostropheLiteral, hc]

private theorem plain_of_denotes {base n : Nat} (hbase : base ≤ 16) {digits : List Char}
    (h : Text.Denotes base digits n) : ∀ c ∈ digits, c ≠ ';' ∧ c ≠ '\'' := by
  obtain ⟨-, ds, hds, -⟩ := h
  have hplain : ∀ d < 16, Text.smallDigits[d]?.all (fun c => decide (c ≠ ';' ∧ c ≠ '\'')) = true ∧
      Text.capitalDigits[d]?.all (fun c => decide (c ≠ ';' ∧ c ≠ '\'')) = true := by decide
  induction hds with
  | nil => exact fun c hc => nomatch hc
  | @cons c d cs ds hc _ ih =>
    refine List.forall_mem_cons.2 ⟨?_, ih⟩
    obtain ⟨hd, hsmall | hcapital⟩ := hc
    · simpa [hsmall] using (hplain d (Nat.lt_of_lt_of_le hd hbase)).1
    · simpa [hcapital] using (hplain d (Nat.lt_of_lt_of_le hd hbase)).2

private theorem Numeral.shaped (h : Numeral word b) : Shaped word := by
  cases h with
  | @hexadecimal x sign digits _ hx hsign hdigits =>
    have hdigits := plain_of_denotes (Nat.le_refl 16) hdigits
    have hsign : ∀ c ∈ sign, c ≠ ';' ∧ c ≠ '\'' := by rcases hsign with rfl | rfl <;> simp
    refine .inl (List.forall_mem_cons.2 ⟨by decide, List.forall_mem_cons.2 ⟨?_, ?_⟩⟩)
    · rcases hx with rfl | rfl <;> decide
    · exact List.forall_mem_append.2 ⟨hsign, hdigits⟩
  | decimal hdigits => exact .inl (plain_of_denotes (by decide) hdigits)
  | character => exact .inr ⟨_, rfl⟩

/-- Upper-casing keeps what is no letter, so a name holds nothing of the kind that its upper-case form does not
hold. -/
theorem IsNamed.shaped {name upper : String} (h : IsNamed name word)
    (hupper : Text.upper name.toList = upper.toList) (hplain : upper.toList.all isPlain = true) :
    Shaped word := by
  have hkept {c : Char} (hc : c ∈ word) (hself : Text.upperChar c = [c]) : isPlain c = true := by
    apply List.all_eq_true.1 hplain
    rw [← hupper, ← h]
    exact List.mem_flatMap.2 ⟨c, hc, by rw [hself]; exact List.mem_singleton_self c⟩
  refine .inl fun c hc => ⟨?_, ?_⟩
  · rintro rfl
    exact absurd (hkept hc rfl) (by decide)
  · rintro rfl
    exact absurd (hkept hc rfl) (by decide)

private theorem shaped_of_mnemonic {op : Opcode} (h : IsNamed op.mnemonic word) : Shaped word := by
  have hself : StandsFor op.mnemonic.toList (.name op.mnemonic) := Token.ofWord?_mnemonic op
  exact h.shaped hself.upper_eq (List.all_eq_true.2 (isPlain_mnemonic op))

private theorem TypeWord.shaped (h : TypeWord word b) : Shaped word := by
  cases h with
  | number h => exact h.shaped
  | name h =>
    have hupper : Text.upper "DivisionByZero".toList = "DIVISIONBYZERO".toList := by decide
    exact h.shaped hupper rfl

private theorem shaped_of_typeWords {ws : List (List Char)} {types : List UInt8}
    (h : List.Forall₂ TypeWord ws types) : ∀ word ∈ ws, Shaped word := by
  induction h with
  | nil => exact fun word hword => nomatch hword
  | cons htype _ ih => exact List.forall_mem_cons.2 ⟨htype.shaped, ih⟩

/-- All words of a line of the grammar are shaped. -/
theorem LineWords.shaped {ws : List (List Char)} {bytes : List UInt8} (h : LineWords ws bytes) :
    ∀ word ∈ ws, Shaped word := by
  cases h with
  | blank => exact fun word hword => nomatch hword
  | byte hname hnumber =>
    have hdirective := hname.shaped standsFor_byteDirective.upper_eq rfl
    exact List.forall_mem_cons.2 ⟨hdirective, List.forall_mem_singleton.2 hnumber.shaped⟩
  | bare _ hname => exact List.forall_mem_singleton.2 (shaped_of_mnemonic hname)
  | operand _ hname hnumber =>
    exact List.forall_mem_cons.2 ⟨shaped_of_mnemonic hname, List.forall_mem_singleton.2 hnumber.shaped⟩
  | @clause word arguments types hname _ htypes =>
    have hclause : IsNamed Opcode.clause.mnemonic word := hname
    exact List.forall_mem_cons.2 ⟨shaped_of_mnemonic hclause, shaped_of_typeWords htypes⟩

/-- A line has as many apostrophes, up to pairs, as it has literals for an apostrophe. -/
theorem even_apostrophes_iff {ws : List (List Char)} (h : ∀ word ∈ ws, Shaped word) :
    Even (ws.flatten.count '\'') ↔ Even (ws.count apostropheLiteral) := by
  induction ws with
  | nil => rfl
  | cons word ws ih =>
    obtain ⟨hword, hws⟩ := List.forall_mem_cons.1 h
    rw [List.flatten_cons, List.count_append, Nat.even_add, hword.even_iff, ih hws]
    by_cases hliteral : word = apostropheLiteral
    · rw [hliteral, List.count_cons_self, Nat.even_add_one]
      simp
    · rw [List.count_cons_of_ne hliteral]
      simp [hliteral]

end Words

section Lines
variable {line : List Char} {bytes : List UInt8}

/-- Whether a comment can be put behind a line: it has one, or the literals for an apostrophe on it are even in
number. -/
def TakesComment (line : List Char) : Prop :=
  code line ≠ line ∨ Even ((Text.words line).count apostropheLiteral)

private theorem lineWords_of_lineBytes (h : lineBytes line = .ok bytes) :
    LineWords (Text.words (code line)) bytes := by
  obtain ⟨c, hcode, hwords⟩ := lineBytes_eq_ok_iff_lineEncodes.1 h
  exact isCode_iff.1 hcode ▸ hwords

/-- A line without a comment takes one if its apostrophes are even in number. -/
theorem even_apostrophes_of_lineBytes (h : lineBytes line = .ok bytes) (hcode : code line = line) :
    Even (line.count '\'') ↔ Even ((Text.words line).count apostropheLiteral) := by
  have hwords := lineWords_of_lineBytes h
  rw [hcode] at hwords
  rw [← even_apostrophes_iff hwords.shaped, Text.words, Text.count_flatten_pieces (by decide)]

/-- A line that takes a comment keeps its words. -/
theorem words_code_comment (h : lineBytes line = .ok bytes) (htakes : TakesComment line) (comment : List Char) :
    Text.words (code (line ++ ' ' :: ';' :: comment)) = Text.words (code line) := by
  by_cases hcode : code line = line
  · have heven := (even_apostrophes_of_lineBytes h hcode).2 (htakes.resolve_left (absurd hcode))
    rw [code_comment_of_even hcode heven, hcode, Text.words, Text.pieces_append (by decide)]
    exact List.append_nil _
  · rw [code_append_of_ne hcode]

private theorem lineBytes_comment (h : lineBytes line = .ok bytes) (htakes : TakesComment line)
    (comment : List Char) : lineBytes (line ++ ' ' :: ';' :: comment) = .ok bytes := by
  rw [lineBytes, statement, words_code_comment h htakes]
  exact h

/-- Otherwise the comment is read as words, and no line has a word that starts with a semicolon. -/
theorem lineBytes_comment_ne_ok (h : lineBytes line = .ok bytes) (htakes : ¬ TakesComment line)
    (comment : List Char) (bytes' : List UInt8) :
    lineBytes (line ++ ' ' :: ';' :: comment) ≠ .ok bytes' := by
  intro hcomment
  obtain ⟨hcode, hodd⟩ := not_or.1 htakes
  have hcode := not_not.1 hcode
  have hodd := mt (even_apostrophes_of_lineBytes h hcode).1 hodd
  obtain ⟨more, hmore⟩ := code_comment_of_odd hcode hodd comment
  have hshaped := (lineWords_of_lineBytes hcomment).shaped
  obtain ⟨word, rest, hword⟩ := Text.pieces_cons (show Text.isBlank ';' = false by decide) more
  rw [hmore, Text.words, Text.pieces_append (by decide), hword] at hshaped
  exact not_shaped_semicolon word (hshaped _ (List.mem_append_right _ List.mem_cons_self))

end Lines

/-- A comment behind a line that assembles changes nothing, unless the line has no comment and an odd number of
literals for an apostrophe. In that case the line does not assemble with a comment. -/
theorem assemble_comment (line comment : String) (p : Program) (hline : '\n' ∉ line.toList)
    (hcomment : '\n' ∉ comment.toList) (h : assemble line = .ok p) :
    (TakesComment line.toList → assemble (line ++ " ;" ++ comment) = .ok p) ∧
      (¬ TakesComment line.toList → ∃ e, assemble (line ++ " ;" ++ comment) = .error e) := by
  have htext : (line ++ " ;" ++ comment).toList = line.toList ++ ' ' :: ';' :: comment.toList := by
    rw [String.toList_append, String.toList_append, List.append_assoc]
    rfl
  have hfeed : '\n' ∉ (line ++ " ;" ++ comment).toList := by
    rw [htext]
    simp [hline, hcomment]
  have hbytes := (assemble_line_iff hline).1 h
  constructor
  · intro htakes
    rw [assemble_line_iff hfeed, htext]
    exact lineBytes_comment hbytes htakes _
  · intro htakes
    cases hresult : assemble (line ++ " ;" ++ comment) with
    | error e => exact ⟨e, rfl⟩
    | ok p' =>
      rw [assemble_line_iff hfeed, htext] at hresult
      exact absurd hresult (lineBytes_comment_ne_ok hbytes htakes _ _)

/-- A clause with two literals for an apostrophe takes a comment, whatever apostrophes are in it. -/
theorem assemble_comment_twoApostrophes :
    assemble "CATCH ''' '''" = .ok (.ofList [0x71, 2, 39, 39]) ∧
      assemble ("CATCH ''' '''" ++ " ;" ++ " it's both") = .ok (.ofList [0x71, 2, 39, 39]) := by
  have hassembled : assemble "CATCH ''' '''" = .ok (.ofList [0x71, 2, 39, 39]) := by decide
  have htakes : TakesComment "CATCH ''' '''".toList := .inr (by decide)
  exact ⟨hassembled, (assemble_comment _ _ _ (by decide) (by decide) hassembled).1 htakes⟩

/-- With one of them the comment is taken for words. -/
theorem comment_is_read :
    assemble "PUSH '''" = .ok (.ofList [0x01, 39]) ∧
      assemble ("PUSH '''" ++ " ;" ++ " x") = .error ⟨1, .unexpectedToken ";"⟩ := by
  decide

end PixelCode.Assembly
