import PixelCode.Assembly.Source
import PixelCode.Proofs.Text.Layout

/-! The line for a statement is read back word by word, and assembles to the bytes of the statement. -/
namespace PixelCode.Assembly

def isPlain (c : Char) : Bool := !Text.isBlank c && c != ';' && c != '\''

private theorem isPlain_of_isDigit {c : Char} (h : c.isDigit = true) : isPlain c = true := by
  have hrange : 48 ≤ c.toNat ∧ c.toNat ≤ 57 := by
    simpa [Char.isDigit, UInt32.le_iff_toNat_le] using h
  have hblank : Text.isBlank c = false := by
    simp only [Text.isBlank, Text.blankRanges, List.any_cons, List.any_nil]
    simp
    omega
  have hsemi : c ≠ ';' := by rintro rfl; exact absurd hrange (by decide)
  have hquote : c ≠ '\'' := by rintro rfl; exact absurd hrange (by decide)
  simp [isPlain, hblank, hsemi, hquote]

private theorem isPlain_hexDigit {value : Nat} (h : value < 16) :
    isPlain (Text.hexDigit value) = true := by
  revert h
  revert value
  decide

private theorem isPlain_hexByte (b : UInt8) : ∀ c ∈ Text.hexByte b, isPlain c = true := by
  intro c hc
  obtain ⟨value, hvalue, rfl⟩ := Text.mem_hexByte hc
  exact isPlain_hexDigit hvalue

theorem isPlain_mnemonic (op : Opcode) : ∀ c ∈ op.mnemonic.toList, isPlain c = true := by
  cases op <;> exact List.all_eq_true.1 rfl

/-- What is plain is no line break either. -/
theorem not_break_of_isPlain {c : Char} (h : isPlain c = true) : c ≠ '\n' ∧ c ≠ '\r' := by
  constructor
  · rintro rfl
    exact absurd h (by decide)
  · rintro rfl
    exact absurd h (by decide)

/-- A line without comments and character literals is code as a whole. -/
theorem codeFrom_of_plain {cs : List Char} (h : ∀ c ∈ cs, c ≠ ';' ∧ c ≠ '\'') (quoted : Bool) :
    codeFrom quoted cs = cs := by
  induction cs with
  | nil => rfl
  | cons c cs ih =>
    obtain ⟨⟨hsemi, hquote⟩, hcs⟩ := List.forall_mem_cons.1 h
    rw [codeFrom, if_neg hquote, if_neg (by simp [hsemi]), ih hcs]

namespace Token

theorem ofWord?_mnemonic (op : Opcode) : ofWord? op.mnemonic.toList = some (name op.mnemonic) := by
  cases op <;> decide +kernel

theorem ofWord?_digits {word : List Char} (hdigits : ∀ c ∈ word, c.isDigit = true) (hne : word ≠ []) :
    ofWord? word = (decimal? word).map number := by
  unfold ofWord?
  split
  next digits => exact absurd (hdigits 'x' (by simp)) (by decide)
  next digits => exact absurd (hdigits 'X' (by simp)) (by decide)
  next rest => exact absurd (hdigits '\'' (by simp)) (by decide)
  next =>
    obtain ⟨c, cs, rfl⟩ := List.exists_cons_of_ne_nil hne
    rw [if_pos (by simp [hdigits c])]

private theorem ofWord?_toDigits {n : Nat} (h : n < numberLimit) :
    ofWord? (Nat.toDigits 10 n) = some (number n) := by
  have hdigits : ∀ c ∈ Nat.toDigits 10 n, c.isDigit = true :=
    fun c hc => Nat.isDigit_of_mem_toDigits (by decide) (by decide) hc
  rw [ofWord?_digits hdigits Nat.toDigits_ne_nil, decimal?, Text.digits?_toDigits]
  simp [Option.filter, h]

private theorem ofWord?_hexByte (b : UInt8) :
    ofWord? ('0' :: 'x' :: Text.hexByte b) = some (number b.toNat) := by
  have hlimit : b.toNat < numberLimit := Nat.lt_trans b.toNat_lt (by decide)
  have hplus : Text.hexDigit (b.toNat / 16) ≠ '+' := by
    have h : b.toNat / 16 < 16 := by have := b.toNat_lt; omega
    generalize b.toNat / 16 = value at h
    revert h
    revert value
    decide
  have hvalue : Text.unsigned? 16 numberLimit (Text.hexByte b) = some b.toNat := by
    rw [Text.unsigned?, Text.digits?_hexByte]
    · simp [Option.filter, hlimit]
    · intro rest heq
      exact hplus (List.cons.inj heq).1
  rw [ofWord?, hvalue]
  rfl

end Token

namespace Statement

def Complete : Statement → Prop
  | instruction .clause types => types.length ≤ 255
  | instruction op operands => operands.length = op.operands
  | raw _ => True

def lineWords : Statement → List (List Char)
  | instruction op operands =>
    op.mnemonic.toList :: operands.map fun b => Nat.toDigits 10 b.toNat
  | raw b => [byteDirective.toList, '0' :: 'x' :: Text.hexByte b]

def lineTokens : Statement → List Token
  | instruction op operands => .name op.mnemonic :: operands.map fun b => .number b.toNat
  | raw b => [.name byteDirective, .number b.toNat]

theorem toList_text (s : Statement) : s.text.toList = [' '].intercalate s.lineWords := by
  cases s with
  | instruction op operands =>
    simp [text, lineWords, Function.comp_def]
  | raw b => simp [text, lineWords, byteDirective]

private theorem lineWords_plain (s : Statement) :
    ∀ w ∈ s.lineWords, w ≠ [] ∧ ∀ c ∈ w, isPlain c = true := by
  cases s with
  | instruction op operands =>
    refine List.forall_mem_cons.2 ⟨⟨by cases op <;> decide, isPlain_mnemonic op⟩, ?_⟩
    intro w hw
    obtain ⟨b, -, rfl⟩ := List.mem_map.1 hw
    exact ⟨Nat.toDigits_ne_nil, fun c hc =>
      isPlain_of_isDigit (Nat.isDigit_of_mem_toDigits (by decide) (by decide) hc)⟩
  | raw b =>
    have hdigits : ∀ c ∈ '0' :: 'x' :: Text.hexByte b, isPlain c = true :=
      List.forall_mem_cons.2 ⟨by decide, List.forall_mem_cons.2 ⟨by decide, isPlain_hexByte b⟩⟩
    refine List.forall_mem_cons.2 ⟨⟨by decide, List.all_eq_true.1 rfl⟩, ?_⟩
    simpa using hdigits

private theorem text_char {s : Statement} {c : Char} (h : c ∈ s.text.toList) :
    c = ' ' ∨ isPlain c = true := by
  rw [toList_text] at h
  rcases Text.mem_intercalate h with rfl | ⟨w, hw, hc⟩
  · exact .inl rfl
  · exact .inr ((s.lineWords_plain w hw).2 c hc)

private theorem text_no_break (s : Statement) : ∀ c ∈ s.text.toList, c ≠ '\n' ∧ c ≠ '\r' := by
  intro c hc
  rcases text_char hc with rfl | hplain
  · decide
  · exact not_break_of_isPlain hplain

/-- The words of the line for a statement are read back. -/
theorem words_text (s : Statement) : Text.words (code s.text.toList) = s.lineWords := by
  have hcode : code s.text.toList = s.text.toList := by
    refine codeFrom_of_plain (fun c hc => ?_) false
    rcases text_char hc with rfl | hplain
    · decide
    · simp [isPlain] at hplain
      exact ⟨hplain.1.2, hplain.2⟩
  rw [hcode, toList_text]
  refine Text.pieces_intercalate (by decide) fun w hw => ⟨(s.lineWords_plain w hw).1, fun c hc => ?_⟩
  have hplain := (s.lineWords_plain w hw).2 c hc
  simp [isPlain] at hplain
  exact hplain.1.1

private theorem tokens_digits (bs : List UInt8) :
    tokens (bs.map fun b => Nat.toDigits 10 b.toNat) = .ok (bs.map fun b => .number b.toNat) := by
  induction bs with
  | nil => rfl
  | cons b bs ih =>
    have hlimit : b.toNat < Token.numberLimit := Nat.lt_trans b.toNat_lt (by decide)
    simp only [List.map_cons, tokens, Token.ofWord?_toDigits hlimit, ih]
    rfl

private theorem tokens_lineWords (s : Statement) : tokens s.lineWords = .ok s.lineTokens := by
  cases s with
  | instruction op operands =>
    simp only [lineWords, tokens, Token.ofWord?_mnemonic, tokens_digits]
    rfl
  | raw b =>
    have hname : Token.ofWord? byteDirective.toList = some (.name byteDirective) := by decide +kernel
    simp only [lineWords, tokens, hname, Token.ofWord?_hexByte]
    rfl

theorem byteOf_toNat (b : UInt8) : byteOf b.toNat = .ok b := by
  rw [byteOf, if_pos b.toNat_lt, UInt8.ofNat_toNat]

theorem soleByte_number (name : String) (b : UInt8) :
    soleByte name [.number b.toNat] = .ok b := by
  simp only [soleByte, byteOf_toNat]
  rfl

private theorem typeBytes_numbers (bs : List UInt8) :
    typeBytes (bs.map fun b => .number b.toNat) = .ok bs := by
  induction bs with
  | nil => rfl
  | cons b bs ih =>
    simp only [List.map_cons, typeBytes, typeByte, byteOf_toNat, ih]
    rfl

/-- A complete instruction is recovered from its operation and its arguments. -/
theorem ofArguments_numbers {op : Opcode} {operands : List UInt8}
    (h : (instruction op operands).Complete) :
    ofArguments op (operands.map fun b => .number b.toNat) = .ok (instruction op operands) := by
  by_cases hop : op = .clause
  · subst hop
    have hlength : ¬ 255 < (operands.map fun b => Token.number b.toNat).length := by
      rw [List.length_map]
      exact Nat.not_lt.2 h
    simp only [ofArguments, if_neg hlength, typeBytes_numbers]
    rfl
  · have hlength : operands.length = op.operands := by
      cases op <;> first | exact h | exact absurd rfl hop
    have hwidth : op.operands = 0 ∨ op.operands = 1 := by
      cases op <;> decide
    rw [ofArguments]
    · rcases hwidth with hzero | hone
      · obtain rfl := List.eq_nil_of_length_eq_zero (hlength.trans hzero)
        rw [if_pos hzero]
        rfl
      · obtain ⟨b, rfl⟩ := List.length_eq_one_iff.1 (hlength.trans hone)
        rw [if_neg (by omega), List.map_singleton, soleByte_number]
        rfl
    · exact hop

theorem ofTokens_lineTokens {s : Statement} (h : s.Complete) :
    ofTokens s.lineTokens = .ok (some s) := by
  cases s with
  | instruction op operands =>
    have hname : op.mnemonic ≠ byteDirective := by cases op <;> decide
    simp only [lineTokens, ofTokens, if_neg hname, Opcode.ofMnemonic?_mnemonic,
      ofArguments_numbers h]
    rfl
  | raw b =>
    simp only [lineTokens, ofTokens, if_true, soleByte_number]
    rfl

end Statement

/-- The line for a complete statement assembles to its bytes. -/
theorem lineBytes_text {s : Statement} (h : s.Complete) : lineBytes s.text.toList = .ok s.encode := by
  rw [lineBytes, statement, Statement.words_text, Statement.tokens_lineWords]
  simp only [bind, Except.bind, Statement.ofTokens_lineTokens h]
  rfl

/-- Lines for complete statements assemble to their bytes in order, whatever number they start at. -/
theorem linesBytes_text {ss : List Statement} (h : ∀ s ∈ ss, s.Complete) (number : Nat) :
    linesBytes number (ss.map (·.text.toList)) = .ok (ss.flatMap Statement.encode) := by
  induction ss generalizing number with
  | nil => rfl
  | cons s ss ih =>
    obtain ⟨hs, hss⟩ := List.forall_mem_cons.1 h
    simp only [List.map_cons, linesBytes, lineBytes_text hs, ih hss]
    rfl

def listingOf (ss : List Statement) : String := String.join (ss.map fun s => s.text ++ "\n")

theorem lines_listingOf (ss : List Statement) :
    Text.lines (listingOf ss).toList = ss.map (·.text.toList) := by
  have htext : (listingOf ss).toList = (ss.map (·.text.toList)).flatMap (· ++ ['\n']) := by
    simp [listingOf, List.flatMap_map]
  rw [htext, Text.lines_flatMap]
  intro l hl
  obtain ⟨s, -, rfl⟩ := List.mem_map.1 hl
  exact s.text_no_break

/-- Complete statements, written one to a line, assemble to their bytes. -/
theorem assemble_listingOf {ss : List Statement} (h : ∀ s ∈ ss, s.Complete) :
    assemble (listingOf ss) = .ok (.ofList (ss.flatMap Statement.encode)) := by
  rw [assemble, lines_listingOf, linesBytes_text h]
  rfl

end PixelCode.Assembly
