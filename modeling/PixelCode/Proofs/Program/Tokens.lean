import PixelCode.Proofs.Program.Listing

/-! Which listings are read, and as what. A grammar says which tokens stand for which bytes, and the tokens of a
text are its pieces between separators in what its lines hold before a hash sign. A listing is read exactly if
every token of it stands for a byte, and otherwise the first that does not is reported with its number. -/
namespace PixelCode.Program

section Split

private theorem fields_eq_splitOnP (separates : Char → Bool) (cs : List Char) :
    Text.fields separates cs = cs.splitOnP separates := by
  induction cs with
  | nil => rfl
  | cons c cs ih =>
    rw [Text.fields, List.splitOnP_cons_eq_if_modifyHead, ih]
    cases hpieces : cs.splitOnP separates with
    | nil => exact absurd hpieces (List.splitOnP_ne_nil _ _)
    | cons piece pieces => rfl

/-- The tokens of a text: the pieces between separators, without the empty ones, of what stands before the first
hash sign between two line feeds. -/
def textTokens (text : List Char) : List (List Char) :=
  (text.splitOn '\n').flatMap fun line =>
    ((line.takeWhile (· ≠ '#')).splitOnP isListingSeparator).filter (! ·.isEmpty)

private theorem listingTokens_eq_textTokens (text : List Char) :
    listingTokens text = textTokens text := by
  have hline : (fun line => ((line.takeWhile (· ≠ '#')).splitOnP isListingSeparator).filter (! ·.isEmpty)) =
      lineTokens := by
    funext line
    rw [lineTokens, Text.pieces, fields_eq_splitOnP]
  obtain ⟨ended, last, hfields, hlines⟩ := Text.exists_fields_lines text
  have hsplit : text.splitOn '\n' = ended ++ [last] := (fields_eq_splitOnP _ _).symm.trans hfields
  have hended : (ended.map Text.withoutReturn).flatMap lineTokens = ended.flatMap lineTokens := by
    rw [List.flatMap_map]
    exact congrArg ended.flatMap (funext (Text.apply_withoutReturn lineTokens_return))
  rw [textTokens, hline, hsplit, listingTokens_eq, hlines, List.flatMap_append, List.flatMap_append, hended,
    flatMap_lastLine, List.flatMap_singleton]

end Split

section Grammar
variable {cs token digits : List Char} {n : Nat} {b : UInt8}

/-- One or two digits of base sixteen, or a plus sign and one digit, and the number that they stand for. -/
inductive ByteDigits : List Char → Nat → Prop
  | one {c : Char} {d : Nat} (h : Text.IsDigit 16 c d) : ByteDigits [c] d
  | two {c₁ c₂ : Char} {d₁ d₂ : Nat} (h₁ : Text.IsDigit 16 c₁ d₁) (h₂ : Text.IsDigit 16 c₂ d₂) :
    ByteDigits [c₁, c₂] (16 * d₁ + d₂)
  | signed {c : Char} {d : Nat} (h : Text.IsDigit 16 c d) : ByteDigits ['+', c] d

/-- A token stands for a byte: its digits, with or without one `0x` or `0X` before them. -/
def Spells (token : List Char) (b : UInt8) : Prop :=
  ∃ mark ∈ [[], ['0', 'x'], ['0', 'X']], ∃ digits, token = mark ++ digits ∧ ByteDigits digits b.toNat

private theorem denotes_one_iff {c : Char} : Text.Denotes 16 [c] n ↔ Text.IsDigit 16 c n := by
  simp [Text.Denotes, List.forall₂_cons_left_iff]

private theorem denotes_two_iff {c₁ c₂ : Char} :
    Text.Denotes 16 [c₁, c₂] n ↔
      ∃ d₁ d₂, Text.IsDigit 16 c₁ d₁ ∧ Text.IsDigit 16 c₂ d₂ ∧ 16 * d₁ + d₂ = n := by
  simp [Text.Denotes, List.forall₂_cons_left_iff, Nat.ofDigits, add_comm, and_assoc]

/-- Of the numbers with at most one plus sign, those of one or two characters are the digits of a byte. -/
theorem byteDigits_iff :
    ByteDigits cs n ↔ cs.length ≤ 2 ∧ Text.unsigned? 16 256 cs = some n := by
  rw [Text.unsigned?_eq_some_iff]
  constructor
  · rintro (⟨h⟩ | ⟨h₁, h₂⟩ | ⟨h⟩)
    · have hlt := h.1
      exact ⟨by simp, by omega, .inl (denotes_one_iff.2 h)⟩
    · have hlt₁ := h₁.1
      have hlt₂ := h₂.1
      exact ⟨by simp, by omega, .inl (denotes_two_iff.2 ⟨_, _, h₁, h₂, rfl⟩)⟩
    · have hlt := h.1
      exact ⟨by simp, by omega, .inr ⟨_, rfl, denotes_one_iff.2 h⟩⟩
  · rintro ⟨hlength, -, hplain | ⟨rest, rfl, hsigned⟩⟩
    · match cs with
      | [] => exact absurd rfl hplain.1
      | [c] => exact .one (denotes_one_iff.1 hplain)
      | [c₁, c₂] =>
        obtain ⟨d₁, d₂, h₁, h₂, rfl⟩ := denotes_two_iff.1 hplain
        exact .two h₁ h₂
      | _ :: _ :: _ :: _ => simp at hlength
    · match rest with
      | [] => exact absurd rfl hsigned.1
      | [c] => exact .signed (denotes_one_iff.1 hsigned)
      | _ :: _ :: _ => simp at hlength

private theorem ne_of_isDigit {c : Char} {d : Nat} (h : Text.IsDigit 16 c d) :
    c ≠ 'x' ∧ c ≠ 'X' := by
  have hdigit := Text.digit?_eq_some_iff.2 h
  constructor
  · rintro rfl
    cases hdigit
  · rintro rfl
    cases hdigit

/-- Neither letter of a prefix is a digit, so digits are not taken for one. -/
theorem tokenDigits_of_byteDigits (h : ByteDigits cs n) : tokenDigits cs = cs := by
  have hletters : ∀ c ∈ cs, c ≠ 'x' ∧ c ≠ 'X' := by
    cases h with
    | one h => exact List.forall_mem_singleton.2 (ne_of_isDigit h)
    | two h₁ h₂ => exact List.forall_mem_cons.2 ⟨ne_of_isDigit h₁, List.forall_mem_singleton.2 (ne_of_isDigit h₂)⟩
    | signed h => exact List.forall_mem_cons.2 ⟨by decide, List.forall_mem_singleton.2 (ne_of_isDigit h)⟩
  exact tokenDigits_of_not_mem (fun hx => (hletters _ hx).1 rfl) fun hx => (hletters _ hx).2 rfl

private theorem exists_mark (token : List Char) :
    ∃ mark ∈ [[], ['0', 'x'], ['0', 'X']], token = mark ++ tokenDigits token := by
  unfold tokenDigits
  split <;> simp

private theorem tokenByte?_eq_some_iff : tokenByte? token = some b ↔ Spells token b := by
  have hread : tokenByte? token = some b ↔ ByteDigits (tokenDigits token) b.toNat := by
    rw [byteDigits_iff, tokenByte?_eq, Option.ite_none_right_eq_some, Option.map_eq_some_iff]
    refine and_congr_right fun _ => ⟨?_, fun h => ⟨_, h, UInt8.ofNat_toNat⟩⟩
    rintro ⟨n, hn, rfl⟩
    rw [UInt8.toNat_ofNat_of_lt' (Text.unsigned?_eq_some_iff.1 hn).1]
    exact hn
  rw [hread]
  constructor
  · intro h
    obtain ⟨mark, hmark, htoken⟩ := exists_mark token
    exact ⟨mark, hmark, tokenDigits token, htoken, h⟩
  · rintro ⟨mark, hmark, digits, rfl, hdigits⟩
    have hstripped : tokenDigits (mark ++ digits) = digits := by
      simp only [List.mem_cons, List.not_mem_nil, or_false] at hmark
      rcases hmark with rfl | rfl | rfl
      · exact tokenDigits_of_byteDigits hdigits
      · rfl
      · rfl
    rw [hstripped]
    exact hdigits

end Grammar

section Reading
variable {index : Nat} {ts : List (List Char)} {bytes : List UInt8} {e : ListingError}

private theorem readTokens_cons_of_spells {token : List Char} {b : UInt8} (h : Spells token b) :
    readTokens index (token :: ts) = (readTokens (index + 1) ts).map (b :: ·) := by
  rw [readTokens, tokenByte?_eq_some_iff.2 h]

private theorem readTokens_cons_of_not_spells {token : List Char} (h : ¬ ∃ b, Spells token b) :
    readTokens index (token :: ts) = .error ⟨String.ofList token, index⟩ := by
  rw [readTokens]
  cases hbyte : tokenByte? token with
  | none => rfl
  | some b => exact absurd ⟨b, tokenByte?_eq_some_iff.1 hbyte⟩ h

private theorem tokenBytes_eq_error_iff {token : List Char} {text : String} :
    tokenBytes token = .error text ↔ (¬ ∃ b, Spells token b) ∧ String.ofList token = text := by
  simp only [← tokenByte?_eq_some_iff, tokenBytes]
  cases tokenByte? token with
  | none => simp
  | some b => simp

/-- Tokens are read as bytes exactly if each stands for its byte. -/
theorem readTokens_eq_ok_iff : readTokens index ts = .ok bytes ↔ List.Forall₂ Spells ts bytes := by
  induction ts generalizing index bytes with
  | nil =>
    rw [List.forall₂_nil_left_iff]
    exact ⟨fun h => (Except.ok.inj h).symm, fun h => congrArg Except.ok h.symm⟩
  | cons token ts ih =>
    rw [List.forall₂_cons_left_iff]
    constructor
    · intro h
      by_cases hspells : ∃ b, Spells token b
      · obtain ⟨b, hb⟩ := hspells
        rw [readTokens_cons_of_spells hb] at h
        obtain ⟨rest, hrest, rfl⟩ := map_eq_ok_iff.1 h
        exact ⟨b, rest, hb, ih.1 hrest, rfl⟩
      · rw [readTokens_cons_of_not_spells hspells] at h
        cases h
    · rintro ⟨b, rest, hb, hrest, rfl⟩
      rw [readTokens_cons_of_spells hb, ih.2 hrest]
      rfl

private theorem spells_of_forall₂ (h : List.Forall₂ Spells ts bytes) :
    ∀ token ∈ ts, ∃ b, Spells token b := by
  induction h with
  | nil => exact List.forall_mem_nil _
  | cons hb _ ih => exact List.forall_mem_cons.2 ⟨⟨_, hb⟩, ih⟩

/-- The first token that stands for no byte is reported, with its number. -/
theorem readTokens_eq_error_iff :
    readTokens index ts = .error e ↔
      ∃ before token after, ts = before ++ token :: after ∧ (∀ t ∈ before, ∃ b, Spells t b) ∧
        (¬ ∃ b, Spells token b) ∧ e = ⟨String.ofList token, index + before.length⟩ := by
  constructor
  · intro h
    rw [readTokens_eq] at h
    obtain ⟨⟨number, text⟩, hfails, rfl⟩ := mapError_eq_error_iff.1 h
    obtain ⟨before, token, after, hts, hnumber, hbefore, htoken⟩ := exists_failing_item hfails
    obtain ⟨hspells, rfl⟩ := tokenBytes_eq_error_iff.1 htoken
    refine ⟨before, token, after, hts, fun t ht => ?_, hspells, congrArg (ListingError.mk _) hnumber⟩
    obtain ⟨part, hpart⟩ := hbefore t ht
    by_contra hnone
    cases (tokenBytes_eq_error_iff.2 ⟨hnone, rfl⟩).symm.trans hpart
  · rintro ⟨before, token, after, rfl, hbefore, htoken, rfl⟩
    induction before generalizing index with
    | nil => exact readTokens_cons_of_not_spells htoken
    | cons t before ih =>
      obtain ⟨⟨b, hb⟩, hbefore⟩ := List.forall_mem_cons.1 hbefore
      rw [List.cons_append, readTokens_cons_of_spells hb, ih hbefore, List.length_cons, Nat.add_right_comm,
        Nat.add_assoc]
      rfl

end Reading

/-- A listing is refused if and only if some token of it stands for no byte. The error then holds the first such
token, as it is written, and the number of tokens before it. Otherwise the program has a byte for each token, in
their order. -/
theorem ofListing_of_tokens (text : String) :
    ((∃ e, ofListing text = .error e) ↔ ∃ token ∈ textTokens text.toList, ¬ ∃ b, Spells token b) ∧
    (∀ e, ofListing text = .error e ↔
      ∃ before token after, textTokens text.toList = before ++ token :: after ∧ (∀ t ∈ before, ∃ b, Spells t b) ∧
        (¬ ∃ b, Spells token b) ∧ e = ⟨String.ofList token, before.length⟩) ∧
    ∀ p, ofListing text = .ok p ↔ List.Forall₂ Spells (textTokens text.toList) p.toList := by
  have hread : ofListing text = (readTokens 0 (textTokens text.toList)).map ofList := by
    rw [ofListing, listingTokens_eq_textTokens]
  rw [hread]
  refine ⟨⟨?_, ?_⟩, fun e => ?_, fun p => ?_⟩
  · rintro ⟨e, he⟩
    obtain ⟨before, token, after, htokens, -, htoken, -⟩ := readTokens_eq_error_iff.1 (map_eq_error_iff.1 he)
    exact ⟨token, htokens ▸ List.mem_append_cons_self, htoken⟩
  · rintro ⟨token, hmem, htoken⟩
    cases hbytes : readTokens 0 (textTokens text.toList) with
    | error e => exact ⟨e, rfl⟩
    | ok bytes => exact absurd (spells_of_forall₂ (readTokens_eq_ok_iff.1 hbytes) token hmem) htoken
  · rw [map_eq_error_iff, readTokens_eq_error_iff]
    simp only [Nat.zero_add]
  · rw [map_eq_ok_iff, ← readTokens_eq_ok_iff]
    constructor
    · rintro ⟨bytes, hbytes, rfl⟩
      exact hbytes
    · intro hbytes
      exact ⟨_, hbytes, rfl⟩

/-- A sign behind a prefix, and separators and comments of every kind; a prefix is taken off once. -/
example : ofListing "0X+f,\u20037 #zz\r\n0xA0" = .ok (.ofList [15, 7, 0xa0]) ∧
    ofListing "1\n,# 2\n+a 0x0x1" = .error ⟨"0x0x1", 2⟩ := by
  decide

end PixelCode.Program
