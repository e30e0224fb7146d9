import Mathlib.Data.List.TakeWhile
import PixelCode.Program.Listing
import PixelCode.Proofs.Numbered
import PixelCode.Proofs.Text.Feeds
import PixelCode.Proofs.Text.Numeral

/-! Listings. What is written for a program is read back as it is, and listings are read one behind another: the
tokens of two texts that a line feed joins are those of the first and then those of the second. So a listing may
be followed by comments and by other listings. -/
namespace PixelCode.Program

def ListingError.later (count : Nat) (e : ListingError) : ListingError := { e with index := count + e.index }

section Tokens

def lineTokens (line : List Char) : List (List Char) :=
  Text.pieces isListingSeparator (line.takeWhile (· ≠ '#'))

theorem listingTokens_eq (text : List Char) : listingTokens text = (Text.lines text).flatMap lineTokens := rfl

/-- A carriage return at the end of a line separates nothing, or belongs to its comment. -/
theorem lineTokens_return (line : List Char) : lineTokens (line ++ ['\r']) = lineTokens line := by
  rw [lineTokens, lineTokens, List.takeWhile_append]
  split
  next hall =>
    rw [(List.takeWhile_prefix _).eq_of_length hall]
    exact (Text.pieces_append (by decide) line).trans (List.append_nil _)
  next => rfl

/-- The last line of a text may as well end in a line feed. -/
theorem flatMap_lastLine (last : List Char) : (Text.lastLine last).flatMap lineTokens = lineTokens last := by
  unfold Text.lastLine
  split
  next hempty =>
    rw [hempty]
    rfl
  next => exact List.flatMap_singleton _ _

/-- The tokens of two texts that a line feed joins. -/
theorem listingTokens_join (cs rest : List Char) :
    listingTokens (cs ++ '\n' :: rest) = listingTokens cs ++ listingTokens rest := by
  obtain ⟨before, last, -, hlines, hjoined⟩ := Text.lines_join cs rest
  rw [listingTokens_eq, listingTokens_eq, listingTokens_eq, hjoined, hlines, List.flatMap_append, List.flatMap_append,
    List.flatMap_cons, flatMap_lastLine, Text.apply_withoutReturn lineTokens_return, List.append_assoc]

/-- A comment line has no tokens. -/
theorem listingTokens_comment {comment : List Char} (h : '\n' ∉ comment) : listingTokens ('#' :: comment) = [] := by
  have hfeed : '\n' ∉ '#' :: comment := List.not_mem_cons_of_ne_of_not_mem (by decide) h
  rw [listingTokens_eq, Text.lines_of_no_feed hfeed (List.cons_ne_nil _ _)]
  rfl

end Tokens

section Bytes

/-- Without the letter of a prefix there is no prefix. -/
theorem tokenDigits_of_not_mem {cs : List Char} (hsmall : 'x' ∉ cs) (hcapital : 'X' ∉ cs) : tokenDigits cs = cs := by
  unfold tokenDigits
  split
  next => simp at hsmall
  next => simp at hcapital
  next => rfl

def tokenBytes (token : List Char) : Except String (List UInt8) :=
  match tokenByte? token with
  | none => .error (String.ofList token)
  | some b => .ok [b]

theorem readTokens_eq (index : Nat) (ts : List (List Char)) :
    readTokens index ts = (readNumbered tokenBytes index ts).mapError fun e => ⟨e.2, e.1⟩ := by
  induction ts generalizing index with
  | nil => rfl
  | cons token ts ih =>
    rw [readTokens, readNumbered, tokenBytes]
    cases tokenByte? token with
    | none => rfl
    | some b =>
      simp only [ih]
      cases readNumbered tokenBytes (index + 1) ts <;> rfl

private theorem readTokens_append (index : Nat) (ts more : List (List Char)) :
    readTokens index (ts ++ more) = (readTokens index ts >>= fun bytes =>
      ((readTokens index more).mapError (ListingError.later ts.length)).map (bytes ++ ·)) := by
  rw [readTokens_eq, readTokens_eq, readTokens_eq, readNumbered_append, Nat.add_comm, readNumbered_add]
  cases readNumbered tokenBytes index ts with
  | error e => rfl
  | ok bytes => cases readNumbered tokenBytes index more <;> rfl

/-- A token is a byte. -/
theorem length_of_readTokens {index : Nat} {ts : List (List Char)} {bytes : List UInt8}
    (h : readTokens index ts = .ok bytes) : bytes.length = ts.length := by
  induction ts generalizing index bytes with
  | nil =>
    cases h
    rfl
  | cons token ts ih =>
    rw [readTokens] at h
    cases hbyte : tokenByte? token with
    | none =>
      rw [hbyte] at h
      cases h
    | some b =>
      rw [hbyte] at h
      obtain ⟨rest, hrest, rfl⟩ := map_eq_ok_iff.1 h
      rw [List.length_cons, List.length_cons, ih hrest]

/-- Two listings that a line feed joins are read one after the other. -/
theorem ofListing_join (t₁ t₂ : String) :
    ofListing (t₁ ++ "\n" ++ t₂) = (ofListing t₁ >>= fun p₁ =>
      ((ofListing t₂).mapError (ListingError.later p₁.size)).map fun p₂ => .ofList (p₁.toList ++ p₂.toList)) := by
  rw [ofListing, Text.toList_join, listingTokens_join, readTokens_append, ofListing, ofListing]
  cases hfirst : readTokens 0 (listingTokens t₁.toList) with
  | error e => rfl
  | ok bytes =>
    rw [← length_of_readTokens hfirst]
    cases readTokens 0 (listingTokens t₂.toList) <;> rfl

/-- A comment line behind a listing is read as nothing. -/
theorem ofListing_comment (text : String) {comment : String} (h : '\n' ∉ comment.toList) :
    ofListing (text ++ "\n" ++ ("#" ++ comment)) = ofListing text := by
  have hcomment : ofListing ("#" ++ comment) = .ok (.ofList []) := by
    have htext : ("#" ++ comment).toList = '#' :: comment.toList := String.toList_append
    rw [ofListing, htext, listingTokens_comment h]
    rfl
  rw [ofListing_join, hcomment]
  cases ofListing text with
  | error e => rfl
  | ok p => exact congrArg (fun bytes => Except.ok (ofList bytes)) (List.append_nil p.toList)

end Bytes

section RoundTrip

def rowLine (row : List UInt8) : List Char := [' '].intercalate (row.map Text.hexByte)

private theorem flatten_rows (bytes : List UInt8) : (rows bytes).flatten = bytes := by
  fun_induction rows bytes with
  | case1 => rfl
  | case2 b bytes ih => rw [List.flatten_cons, ih, List.cons_append, List.take_append_drop]

/-- The digits of a byte neither separate tokens nor start a comment, and none of them is the letter of a prefix. -/
theorem hexByte_char {b : UInt8} {c : Char} (h : c ∈ Text.hexByte b) :
    isListingSeparator c = false ∧ c ≠ '#' ∧ c ≠ 'x' ∧ c ≠ 'X' := by
  have hdigits : ∀ value, value < 16 → isListingSeparator (Text.hexDigit value) = false ∧
      Text.hexDigit value ≠ '#' ∧ Text.hexDigit value ≠ 'x' ∧ Text.hexDigit value ≠ 'X' := by decide
  obtain ⟨value, hvalue, rfl⟩ := Text.mem_hexByte h
  exact hdigits value hvalue

/-- For the length of a token its characters may be counted instead of its bytes. -/
theorem tokenByte?_eq (token : List Char) :
    tokenByte? token =
      if (tokenDigits token).length ≤ 2 then (Text.unsigned? 16 256 (tokenDigits token)).map UInt8.ofNat else none := by
  rw [tokenByte?]
  cases hvalue : Text.unsigned? 16 256 (tokenDigits token) with
  | none => simp
  | some n =>
    obtain ⟨hne, hsize⟩ := Text.length_encode_of_unsigned? hvalue
    have hempty : (tokenDigits token).isEmpty = false := List.isEmpty_eq_false_iff.2 hne
    rw [hsize, hempty, Bool.false_or]
    by_cases hlength : (tokenDigits token).length ≤ 2
    · rw [if_neg (by simpa using hlength), if_pos hlength]
    · rw [if_pos (by simpa using hlength), if_neg hlength]

private theorem tokenByte?_hexByte (b : UInt8) : tokenByte? (Text.hexByte b) = some b := by
  have hdigits : tokenDigits (Text.hexByte b) = Text.hexByte b :=
    tokenDigits_of_not_mem (fun hx => (hexByte_char hx).2.2.1 rfl) fun hx => (hexByte_char hx).2.2.2 rfl
  have hlength : (Text.hexByte b).length ≤ 2 := Nat.le_refl 2
  have hvalue : Text.unsigned? 16 256 (Text.hexByte b) = some b.toNat :=
    Text.unsigned?_eq_some_iff.2 ⟨b.toNat_lt, .inl (Text.digits?_eq_some_iff.1 (Text.digits?_hexByte b))⟩
  rw [tokenByte?_eq, hdigits, if_pos hlength, hvalue]
  exact congrArg some UInt8.ofNat_toNat

private theorem readTokens_hexByte (index : Nat) (bytes : List UInt8) :
    readTokens index (bytes.map Text.hexByte) = .ok bytes := by
  induction bytes generalizing index with
  | nil => rfl
  | cons b bytes ih =>
    rw [List.map_cons, readTokens, tokenByte?_hexByte, ih]
    rfl

private theorem rowLine_char {row : List UInt8} {c : Char} (h : c ∈ rowLine row) :
    c = ' ' ∨ isListingSeparator c = false ∧ c ≠ '#' := by
  rcases Text.mem_intercalate h with hspace | ⟨word, hword, hc⟩
  · exact .inl hspace
  · obtain ⟨b, -, rfl⟩ := List.mem_map.1 hword
    have hplain := hexByte_char hc
    exact .inr ⟨hplain.1, hplain.2.1⟩

private theorem lineTokens_rowLine (row : List UInt8) :
    lineTokens (rowLine row) = row.map Text.hexByte := by
  have hcode : (rowLine row).takeWhile (· ≠ '#') = rowLine row := by
    refine List.takeWhile_eq_self_iff.2 fun c hc => decide_eq_true ?_
    rcases rowLine_char hc with rfl | hplain
    · decide
    · exact hplain.2
  rw [lineTokens, hcode]
  refine Text.pieces_intercalate (by decide) fun word hword => ?_
  obtain ⟨b, -, rfl⟩ := List.mem_map.1 hword
  exact ⟨List.cons_ne_nil _ _, fun c hc => (hexByte_char hc).1⟩

private theorem lines_listing (p : Program) :
    Text.lines p.listing.toList = (rows p.toList).map rowLine := by
  have htext : p.listing.toList = ((rows p.toList).map rowLine).flatMap (· ++ ['\n']) := by
    rw [listing, String.toList_ofList, List.flatMap_map]
    rfl
  rw [htext]
  refine Text.lines_flatMap fun line hline c hc => ?_
  obtain ⟨row, -, rfl⟩ := List.mem_map.1 hline
  rcases rowLine_char hc with rfl | ⟨hplain, -⟩
  · decide
  · constructor <;> rintro rfl <;> exact absurd hplain (by decide)

private theorem listingTokens_listing (p : Program) :
    listingTokens p.listing.toList = p.toList.map Text.hexByte := by
  calc
    listingTokens p.listing.toList = ((rows p.toList).map rowLine).flatMap lineTokens := by
      rw [listingTokens_eq, lines_listing]
    _ = (rows p.toList).flatMap (·.map Text.hexByte) := by
      simp only [List.flatMap_map, lineTokens_rowLine]
    _ = (rows p.toList).flatten.map Text.hexByte := by rw [List.flatMap_def, List.map_flatten]
    _ = p.toList.map Text.hexByte := by rw [flatten_rows]

private theorem ofListing_listing (p : Program) : ofListing p.listing = .ok p := by
  rw [ofListing, listingTokens_listing, readTokens_hexByte]
  rfl

end RoundTrip

/-- Listings are read back and compose. The listing of a program is read as the program. Of two listings that a
line feed joins, an error in the first is the error of both, and otherwise the bytes of the first are followed by
those of the second, whose errors are reported as many tokens further on as the first has bytes. A comment line
between two listings or behind one changes nothing. -/
theorem listings_compose :
    (∀ p : Program, ofListing p.listing = .ok p) ∧
    ∀ t₁ t₂ : String,
      (∀ e, ofListing t₁ = .error e → ofListing (t₁ ++ "\n" ++ t₂) = .error e) ∧
      (∀ p₁ p₂, ofListing t₁ = .ok p₁ → ofListing t₂ = .ok p₂ →
        ofListing (t₁ ++ "\n" ++ t₂) = .ok (.ofList (p₁.toList ++ p₂.toList))) ∧
      (∀ p₁ e, ofListing t₁ = .ok p₁ → ofListing t₂ = .error e →
        ofListing (t₁ ++ "\n" ++ t₂) = .error ⟨e.token, p₁.size + e.index⟩) ∧
      ∀ comment : String, '\n' ∉ comment.toList →
        ofListing (t₁ ++ "\n" ++ ("#" ++ comment)) = ofListing t₁ ∧
        ofListing (t₁ ++ "\n" ++ ("#" ++ comment) ++ "\n" ++ t₂) = ofListing (t₁ ++ "\n" ++ t₂) := by
  refine ⟨ofListing_listing, fun t₁ t₂ => ⟨?_, ?_, ?_, ?_⟩⟩
  · intro e h
    rw [ofListing_join, h]
    rfl
  · intro p₁ p₂ h₁ h₂
    rw [ofListing_join, h₁, h₂]
    rfl
  · intro p₁ e h₁ h₂
    rw [ofListing_join, h₁, h₂]
    rfl
  · intro comment hcomment
    have hbehind := ofListing_comment t₁ hcomment
    exact ⟨hbehind, by rw [ofListing_join _ t₂, hbehind, ofListing_join t₁ t₂]⟩

/-- The first text ends in an open comment and a carriage return, and the second has a token that is no byte. -/
theorem listings_compose_openComment :
    ofListing "0x01,7 # zz\r" = .ok (.ofList [1, 7]) ∧ ofListing "2 +3 zz" = .error ⟨"zz", 2⟩ ∧
      ofListing ("0x01,7 # zz\r" ++ "\n" ++ "2 +3 zz") = .error ⟨"zz", 4⟩ ∧
      ofListing ("0x01,7 # zz\r" ++ "\n" ++ ("#" ++ " zz")) = .ok (.ofList [1, 7]) := by
  have hfirst : ofListing "0x01,7 # zz\r" = .ok (.ofList [1, 7]) := by decide
  have hsecond : ofListing "2 +3 zz" = .error ⟨"zz", 2⟩ := by decide
  obtain ⟨-, -, hjoined, hcomment⟩ := listings_compose.2 "0x01,7 # zz\r" "2 +3 zz"
  exact ⟨hfirst, hsecond, hjoined _ _ hfirst hsecond, (hcomment " zz" (by decide)).1.trans hfirst⟩

end PixelCode.Program
