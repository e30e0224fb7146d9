import PixelCode.Proofs.Assembly.Reading
import PixelCode.Proofs.Text.Capitals
import PixelCode.Proofs.Text.Numeral

/-! The grammar of assembly text, and that exactly the texts of the grammar assemble. -/
namespace PixelCode.Assembly

/-- A line before its comment, which starts at the first semicolon with an even number of apostrophes
before it. -/
def IsCode (line code : List Char) : Prop :=
  (code = line ∨ ∃ comment, line = code ++ ';' :: comment ∧ Even (code.count '\'')) ∧
    ∀ before after, code = before ++ ';' :: after → ¬ Even (before.count '\'')

inductive Numeral : List Char → UInt8 → Prop where
  | hexadecimal {x : Char} {sign digits : List Char} {b : UInt8} : x = 'x' ∨ x = 'X' →
    sign = [] ∨ sign = ['+'] → Text.Denotes 16 digits b.toNat →
    Numeral ('0' :: x :: (sign ++ digits)) b
  | decimal {digits : List Char} {b : UInt8} : Text.Denotes 10 digits b.toNat → Numeral digits b
  | character {c : Char} {b : UInt8} : 0x21 ≤ c.toNat → c.toNat ≤ 0x7e → b.toNat = c.toNat →
    Numeral ['\'', c, '\''] b

/-- A word that is a number or a character, and its value, which may need more than a byte. -/
inductive Literal : List Char → Nat → Prop where
  | hexadecimal {x : Char} {sign digits : List Char} {n : Nat} : x = 'x' ∨ x = 'X' →
    sign = [] ∨ sign = ['+'] → Text.Denotes 16 digits n → n < Token.numberLimit →
    Literal ('0' :: x :: (sign ++ digits)) n
  | decimal {digits : List Char} {n : Nat} : Text.Denotes 10 digits n → n < Token.numberLimit →
    Literal digits n
  | character {c : Char} : 0x21 ≤ c.toNat → c.toNat ≤ 0x7e → Literal ['\'', c, '\''] c.toNat

def IsNamed (name : String) (word : List Char) : Prop := Text.upper word = Text.upper name.toList

inductive TypeWord : List Char → UInt8 → Prop where
  | number {word : List Char} {b : UInt8} : Numeral word b → TypeWord word b
  | name {word : List Char} : IsNamed "DivisionByZero" word → TypeWord word 1

inductive LineWords : List (List Char) → List UInt8 → Prop where
  | blank : LineWords [] []
  | byte {word number : List Char} {b : UInt8} : IsNamed "BYTE" word → Numeral number b →
    LineWords [word, number] [b]
  | bare {word : List Char} {op : Opcode} : op ∉ [.push, .store, .load, .call, .func, .clause] →
    IsNamed op.mnemonic word → LineWords [word] [op.byte]
  | operand {word number : List Char} {op : Opcode} {b : UInt8} :
    op ∈ [.push, .store, .load, .call, .func] → IsNamed op.mnemonic word → Numeral number b →
    LineWords [word, number] [op.byte, b]
  | clause {word : List Char} {arguments : List (List Char)} {types : List UInt8} :
    IsNamed "CATCH" word → arguments.length ≤ 255 → List.Forall₂ TypeWord arguments types →
    LineWords (word :: arguments) (0x71 :: UInt8.ofNat arguments.length :: types)

def LineEncodes (line : List Char) (bytes : List UInt8) : Prop :=
  ∃ code, IsCode line code ∧ LineWords (Text.words code) bytes

section Comments

/-- An apostrophe switches the parity of the number of apostrophes so far. -/
theorem even_toNat_not {quoted : Bool} {n : Nat} :
    Even ((!quoted).toNat + n) ↔ Even (quoted.toNat + (n + 1)) := by
  cases quoted
  · rw [Bool.not_false, Bool.toNat_true, Bool.toNat_false, Nat.zero_add, Nat.add_comm]
  · rw [Bool.not_true, Bool.toNat_true, Bool.toNat_false, Nat.zero_add]
    grind

/-- The scan for a comment keeps all of a line or stops at a semicolon after an even number of
apostrophes. -/
theorem codeFrom_eq_or (quoted : Bool) (cs : List Char) :
    codeFrom quoted cs = cs ∨ ∃ comment, cs = codeFrom quoted cs ++ ';' :: comment ∧
      Even (quoted.toNat + (codeFrom quoted cs).count '\'') := by
  induction cs generalizing quoted with
  | nil => exact .inl rfl
  | cons c cs ih =>
    rw [codeFrom]
    split
    next hquote =>
      obtain hall | ⟨comment, hcs, heven⟩ := ih (!quoted)
      · exact .inl (by rw [hall])
      · refine .inr ⟨comment, congrArg (c :: ·) hcs, ?_⟩
        rw [hquote, List.count_cons_self]
        exact even_toNat_not.1 heven
    next hquote =>
      split
      next hstop =>
        simp only [Bool.and_eq_true, decide_eq_true_eq, Bool.not_eq_true'] at hstop
        exact .inr ⟨cs, by rw [hstop.1, List.nil_append], by simp [hstop.2]⟩
      next =>
        obtain hall | ⟨comment, hcs, heven⟩ := ih quoted
        · exact .inl (by rw [hall])
        · refine .inr ⟨comment, congrArg (c :: ·) hcs, ?_⟩
          rwa [List.count_cons_of_ne hquote]

/-- A semicolon that the scan for a comment keeps has an odd number of apostrophes before it. -/
theorem odd_of_codeFrom_eq {quoted : Bool} {cs before after : List Char}
    (h : codeFrom quoted cs = before ++ ';' :: after) :
    ¬ Even (quoted.toNat + before.count '\'') := by
  induction cs generalizing quoted before with
  | nil =>
    rw [codeFrom] at h
    simp at h
  | cons c cs ih =>
    rw [codeFrom] at h
    split at h
    next hquote =>
      cases before with
      | nil =>
        rw [hquote] at h
        cases h
      | cons c' before =>
        obtain ⟨rfl, hrest⟩ := List.cons.inj h
        rw [hquote, List.count_cons_self]
        exact fun heven => ih hrest (even_toNat_not.2 heven)
    next hquote =>
      split at h
      next => simp at h
      next hkept =>
        cases before with
        | nil =>
          obtain ⟨rfl, -⟩ := List.cons.inj h
          have hquoted : quoted = true := by simpa using hkept
          rw [hquoted]
          decide
        | cons c' before =>
          obtain ⟨rfl, hrest⟩ := List.cons.inj h
          rw [List.count_cons_of_ne hquote]
          exact ih hrest

theorem isCode_code (line : List Char) : IsCode line (code line) := by
  constructor
  · simpa only [Bool.toNat_false, Nat.zero_add, code] using codeFrom_eq_or false line
  · intro before after h
    simpa only [Bool.toNat_false, Nat.zero_add] using odd_of_codeFrom_eq h

private theorem IsCode.isPrefix {line c : List Char} (h : IsCode line c) : c <+: line := by
  obtain rfl | ⟨comment, rfl, -⟩ := h.1
  · exact List.prefix_rfl
  · exact List.prefix_append _ _

/-- The shorter of two codes of a line would end at a semicolon that the longer one may not hold. -/
theorem IsCode.eq_of_isPrefix {line c c' : List Char} (h : IsCode line c) (h' : IsCode line c')
    (hle : c <+: c') : c = c' := by
  obtain rfl | ⟨comment, rfl, heven⟩ := h.1
  · exact hle.eq_of_length (hle.length_le.antisymm h'.isPrefix.length_le)
  · obtain ⟨rest, rfl⟩ := hle
    cases rest with
    | nil => exact (List.append_nil c).symm
    | cons x rest =>
      have hrest : x :: rest <+: ';' :: comment := (List.prefix_append_right_inj c).1 h'.isPrefix
      obtain ⟨rfl, -⟩ := List.cons_prefix_cons.1 hrest
      exact absurd heven (h'.2 c rest rfl)

/-- Every line has one code: what the scan for a comment keeps. -/
theorem isCode_iff {line c : List Char} : IsCode line c ↔ c = code line := by
  constructor
  · intro h
    rcases List.prefix_or_prefix_of_prefix h.isPrefix (isCode_code line).isPrefix with hle | hle
    · exact h.eq_of_isPrefix (isCode_code line) hle
    · exact ((isCode_code line).eq_of_isPrefix h hle).symm
  · rintro rfl
    exact isCode_code line

end Comments

section Words
variable {word : List Char} {b : UInt8} {n : Nat}

def startsNumber (word : List Char) : Bool := word.head?.any fun c => c.isDigit || c == '\''

private theorem startsNumber_upper (h : startsNumber word = true) :
    startsNumber (Text.upper word) = true := by
  cases word with
  | nil => cases h
  | cons c cs =>
    have hc : c.isDigit = true ∨ c = '\'' := by simpa [startsNumber] using h
    have hrange : c.toNat < 97 := by
      rcases hc with hdigit | rfl
      · have : 48 ≤ c.toNat ∧ c.toNat ≤ 57 := by
          simpa [Char.isDigit, UInt32.le_iff_toNat_le] using hdigit
        omega
      · decide
    have hself : c.toUpper = c := Char.toUpper_eq_of_not_isLower fun hlower => by
      have := Text.isLower_iff.1 hlower
      omega
    rw [Text.upper_cons_of_ascii (by omega), hself]
    exact h

/-- A word that is no number in upper case is none. -/
theorem startsNumber_eq_false_of_upper (h : startsNumber (Text.upper word) = false) :
    startsNumber word = false := by
  apply Bool.eq_false_iff.2
  intro hnumber
  rw [startsNumber_upper hnumber] at h
  cases h

theorem standsFor_upper (h : startsNumber word = false) :
    StandsFor word (.name (String.ofList (Text.upper word))) := by
  unfold StandsFor Token.ofWord?
  split
  next => cases h
  next => cases h
  next => cases h
  next =>
    rw [if_neg]
    intro hdigit
    cases word with
    | nil => cases hdigit
    | cons c cs => simp_all [startsNumber]

theorem StandsFor.startsNumber_eq_false {name : String} (h : StandsFor word (.name name)) :
    startsNumber word = false := by
  apply Bool.eq_false_iff.2
  intro hnumber
  unfold StandsFor Token.ofWord? at h
  split at h
  next => simp at h
  next => simp at h
  next => simp at h
  next hquote =>
    cases word with
    | nil => cases hnumber
    | cons c cs =>
      have hc : c.isDigit = true := by
        have : c ≠ '\'' := by rintro rfl; exact hquote cs rfl
        simpa [startsNumber, this] using hnumber
      simp [hc] at h

/-- A word is a name that stands for itself exactly when it equals it in upper case. -/
theorem isNamed_iff {name : String} (hself : StandsFor name.toList (.name name)) :
    IsNamed name word ↔ StandsFor word (.name name) := by
  rw [IsNamed, hself.upper_eq]
  constructor
  · intro h
    have hno : startsNumber word = false :=
      startsNumber_eq_false_of_upper (h ▸ hself.startsNumber_eq_false)
    have hstands := standsFor_upper hno
    rwa [h, String.ofList_toList] at hstands
  · intro h
    exact h.upper_eq

private theorem isDigit_of_denotes {digits : List Char} {n : Nat} (h : Text.Denotes 10 digits n) :
    ∀ c ∈ digits, c.isDigit = true := by
  obtain ⟨-, ds, hds, -⟩ := h
  have hdecimal : ∀ d < 10, Text.smallDigits[d]?.all Char.isDigit = true ∧
      Text.capitalDigits[d]?.all Char.isDigit = true := by decide
  induction hds with
  | nil => simp
  | @cons c d cs ds hc hcs ih =>
    refine List.forall_mem_cons.2 ⟨?_, ih⟩
    obtain ⟨hd, hsmall | hcapital⟩ := hc
    · simpa [hsmall] using (hdecimal d hd).1
    · simpa [hcapital] using (hdecimal d hd).2

private theorem toNat_lt_numberLimit (b : UInt8) : b.toNat < Token.numberLimit :=
  Nat.lt_trans b.toNat_lt (by decide)

theorem Literal.standsFor (h : Literal word n) : StandsFor word (.number n) := by
  cases h with
  | @hexadecimal x sign digits _ hx hsign hdigits hlimit =>
    have hvalue : Text.unsigned? 16 Token.numberLimit (sign ++ digits) = some n := by
      refine Text.unsigned?_eq_some_iff.2 ⟨hlimit, ?_⟩
      rcases hsign with rfl | rfl
      · exact .inl hdigits
      · exact .inr ⟨digits, rfl, hdigits⟩
    unfold StandsFor
    rcases hx with rfl | rfl
    · rw [Token.ofWord?, hvalue, Option.map_some]
    · rw [Token.ofWord?, hvalue, Option.map_some]
  | decimal hdigits hlimit =>
    rw [StandsFor, Token.ofWord?_digits (isDigit_of_denotes hdigits) hdigits.1, Token.decimal?,
      Text.digits?_eq_some_iff.2 hdigits]
    simp [hlimit]
  | @character c hfirst hlast =>
    have hgraphic : Token.isGraphic c = true := by simp [Token.isGraphic, hfirst, hlast]
    rw [StandsFor, Token.ofWord?, Token.characterCode?, if_pos hgraphic, Option.map_some]

private theorem literal_of_unsigned? {x : Char} {digits : List Char} (hx : x = 'x' ∨ x = 'X')
    (h : Text.unsigned? 16 Token.numberLimit digits = some n) : Literal ('0' :: x :: digits) n := by
  obtain ⟨hlimit, hdigits | ⟨rest, rfl, hdigits⟩⟩ := Text.unsigned?_eq_some_iff.1 h
  · exact .hexadecimal hx (.inl rfl) hdigits hlimit
  · exact .hexadecimal hx (.inr rfl) hdigits hlimit

private theorem literal_of_characterCode? {rest : List Char}
    (h : Token.characterCode? rest = some n) : Literal ('\'' :: rest) n := by
  unfold Token.characterCode? at h
  split at h
  next c =>
    obtain ⟨hgraphic, hn⟩ := Option.ite_none_right_eq_some.1 h
    cases hn
    simp only [Token.isGraphic, Bool.and_eq_true, decide_eq_true_eq] at hgraphic
    exact .character hgraphic.1 hgraphic.2
  next => cases h

/-- The literals are exactly the words that stand for a number. -/
theorem literal_iff : Literal word n ↔ StandsFor word (.number n) := by
  refine ⟨Literal.standsFor, fun h => ?_⟩
  unfold StandsFor Token.ofWord? at h
  split at h
  next digits =>
    obtain ⟨n, hn, heq⟩ := Option.map_eq_some_iff.1 h
    cases heq
    exact literal_of_unsigned? (.inl rfl) hn
  next digits =>
    obtain ⟨n, hn, heq⟩ := Option.map_eq_some_iff.1 h
    cases heq
    exact literal_of_unsigned? (.inr rfl) hn
  next rest =>
    obtain ⟨n, hn, heq⟩ := Option.map_eq_some_iff.1 h
    cases heq
    exact literal_of_characterCode? hn
  next =>
    split at h
    next =>
      obtain ⟨n, hn, heq⟩ := Option.map_eq_some_iff.1 h
      cases heq
      obtain ⟨hdigits, hlimit⟩ := Option.filter_eq_some_iff.1 hn
      exact .decimal (Text.digits?_eq_some_iff.1 hdigits) (of_decide_eq_true hlimit)
    next => cases h

/-- The numbers of the grammar are the literals below 256. -/
theorem numeral_iff_literal : Numeral word b ↔ Literal word b.toNat := by
  have hlimit := toNat_lt_numberLimit b
  constructor
  · intro h
    cases h with
    | hexadecimal hx hsign hdigits => exact .hexadecimal hx hsign hdigits hlimit
    | decimal hdigits => exact .decimal hdigits hlimit
    | character hfirst hlast hb => exact hb ▸ .character hfirst hlast
  · intro h
    generalize hb : b.toNat = n at h
    cases h with
    | hexadecimal hx hsign hdigits => exact .hexadecimal hx hsign (hb ▸ hdigits)
    | decimal hdigits => exact .decimal (hb ▸ hdigits)
    | character hfirst hlast => exact .character hfirst hlast hb

/-- The numbers of the grammar are exactly the words that stand for a number below 256. -/
theorem numeral_iff : Numeral word b ↔ StandsFor word (.number b.toNat) :=
  numeral_iff_literal.trans literal_iff

theorem Numeral.standsFor (h : Numeral word b) : StandsFor word (.number b.toNat) :=
  numeral_iff.1 h

private theorem TypeWord.exists_token (h : TypeWord word b) :
    ∃ t, StandsFor word t ∧ Statement.typeByte t = .ok b := by
  cases h with
  | number h => exact ⟨_, h.standsFor, Statement.byteOf_toNat b⟩
  | name h =>
    have hno : startsNumber word = false := by
      apply startsNumber_eq_false_of_upper
      rw [h]
      decide
    refine ⟨_, standsFor_upper hno, ?_⟩
    rw [h]
    decide +kernel

private theorem typeWord_of_standsFor {t : Token} (h : StandsFor word t)
    (hb : Statement.typeByte t = .ok b) : TypeWord word b := by
  cases t with
  | number n =>
    rw [Statement.byteOf_eq_ok_iff.1 hb] at h
    exact .number (numeral_iff.2 h)
  | name name =>
    rw [Statement.typeByte] at hb
    split at hb
    next e he =>
      cases hb
      obtain ⟨hlower, heq⟩ := Option.ite_none_right_eq_some.1 he
      cases heq
      have hletters : (Text.upper word).map Char.toLower = "divisionbyzero".toList := by
        rw [h.upper_eq, ← String.toList_map, hlower]
      have hupper := Text.map_toUpper_toLower_upper word
      rw [hletters] at hupper
      refine .name ?_
      rw [IsNamed, ← hupper]
      decide
    next => cases hb

/-- The types of the grammar are exactly the words that stand for a type. -/
theorem typeWords_iff {arguments : List (List Char)} {types : List UInt8} :
    List.Forall₂ TypeWord arguments types ↔
      ∃ ts, List.Forall₂ StandsFor arguments ts ∧
        List.Forall₂ (fun t b => Statement.typeByte t = .ok b) ts types := by
  constructor
  · intro h
    induction h with
    | nil => exact ⟨[], .nil, .nil⟩
    | cons hword _ ih =>
      obtain ⟨t, ht, hb⟩ := hword.exists_token
      obtain ⟨ts, hts, htypes⟩ := ih
      exact ⟨t :: ts, .cons ht hts, .cons hb htypes⟩
  · rintro ⟨ts, hts, htypes⟩
    induction hts generalizing types with
    | nil =>
      cases htypes
      exact .nil
    | cons hword _ ih =>
      cases htypes with
      | cons hb htypes => exact .cons (typeWord_of_standsFor hword hb) (ih htypes)

end Words

section Lines
variable {ws : List (List Char)} {bytes : List UInt8}

private theorem not_mem_operands_iff {op : Opcode} :
    op ∉ [.push, .store, .load, .call, .func, .clause] ↔ op.operands = 0 := by
  cases op <;> decide

private theorem mem_operands_iff {op : Opcode} :
    op ∈ [.push, .store, .load, .call, .func] ↔ op.operands ≠ 0 ∧ op ≠ .clause := by
  cases op <;> decide

theorem standsFor_byteDirective : StandsFor byteDirective.toList (.name byteDirective) := by
  unfold StandsFor
  decide

private theorem LineWords.exists_reads (h : LineWords ws bytes) :
    ∃ ts s, List.Forall₂ StandsFor ws ts ∧ Statement.Reads ts s ∧
      (s.map Statement.encode).getD [] = bytes := by
  cases h with
  | blank => exact ⟨[], none, .nil, .blank, rfl⟩
  | byte hword hnumber =>
    have hname := (isNamed_iff standsFor_byteDirective).1 hword
    exact ⟨_, _, .cons hname (.cons hnumber.standsFor .nil), .raw _, rfl⟩
  | @bare word op hop hword =>
    have hname := (isNamed_iff (Token.ofWord?_mnemonic op)).1 hword
    have hzero := not_mem_operands_iff.1 hop
    refine ⟨_, _, .cons hname .nil, .bare hzero, Statement.encode_of_ne ?_ []⟩
    rintro rfl
    cases hzero
  | @operand word number op b hop hword hnumber =>
    have hname := (isNamed_iff (Token.ofWord?_mnemonic op)).1 hword
    obtain ⟨hsome, hclause⟩ := mem_operands_iff.1 hop
    exact ⟨_, _, .cons hname (.cons hnumber.standsFor .nil), .operand b hsome hclause,
      Statement.encode_of_ne hclause [b]⟩
  | clause hword hlength htypes =>
    have hname := (isNamed_iff (Token.ofWord?_mnemonic .clause)).1 hword
    obtain ⟨ts, hts, hbytes⟩ := typeWords_iff.1 htypes
    refine ⟨_, _, .cons hname hts, .clause (hts.length_eq ▸ hlength) hbytes, ?_⟩
    rw [htypes.length_eq]
    rfl

private theorem lineWords_of_reads {ts : List Token} {s : Option Statement}
    (hts : List.Forall₂ StandsFor ws ts) (hread : Statement.Reads ts s) :
    LineWords ws ((s.map Statement.encode).getD []) := by
  cases hread with
  | blank =>
    cases hts
    exact .blank
  | raw b =>
    obtain _ | ⟨hname, _ | ⟨hnumber, _ | _⟩⟩ := hts
    exact .byte ((isNamed_iff standsFor_byteDirective).2 hname) (numeral_iff.2 hnumber)
  | @bare op hzero =>
    obtain _ | ⟨hname, _ | _⟩ := hts
    have hclause : op ≠ .clause := by rintro rfl; cases hzero
    rw [Option.map_some, Option.getD_some, Statement.encode_of_ne hclause]
    exact .bare (not_mem_operands_iff.2 hzero) ((isNamed_iff (Token.ofWord?_mnemonic op)).2 hname)
  | @operand op b hsome hclause =>
    obtain _ | ⟨hname, _ | ⟨hnumber, _ | _⟩⟩ := hts
    rw [Option.map_some, Option.getD_some, Statement.encode_of_ne hclause]
    exact .operand (mem_operands_iff.2 ⟨hsome, hclause⟩)
      ((isNamed_iff (Token.ofWord?_mnemonic op)).2 hname) (numeral_iff.2 hnumber)
  | clause hlength hbytes =>
    obtain _ | ⟨hname, hargs⟩ := hts
    have htypes := typeWords_iff.2 ⟨_, hargs, hbytes⟩
    have hline := LineWords.clause ((isNamed_iff (Token.ofWord?_mnemonic .clause)).2 hname)
      (hargs.length_eq ▸ hlength) htypes
    rwa [htypes.length_eq] at hline

/-- A line assembles exactly when it is one of the grammar, to the bytes that the grammar gives it. -/
theorem lineBytes_eq_ok_iff_lineEncodes {line : List Char} :
    lineBytes line = .ok bytes ↔ LineEncodes line bytes := by
  rw [lineBytes_eq_ok_iff]
  constructor
  · rintro ⟨ts, s, hts, hread, rfl⟩
    exact ⟨code line, isCode_code line, lineWords_of_reads hts hread⟩
  · rintro ⟨c, hcode, hwords⟩
    cases isCode_iff.1 hcode
    exact hwords.exists_reads

end Lines

/-- A text assembles exactly when all its lines are lines of the grammar, and then to their bytes in
order. -/
theorem assemble_eq_ok_iff (text : String) (p : Program) :
    assemble text = .ok p ↔
      ∃ encodings, List.Forall₂ LineEncodes (Text.lines text.toList) encodings ∧
        p = .ofList encodings.flatten := by
  rw [assemble_eq_ok_iff_lineBytes]
  simp only [lineBytes_eq_ok_iff_lineEncodes]

end PixelCode.Assembly
