import PixelCode.Text.Blank
import PixelCode.Text.Digits
import PixelCode.Text.Lines

/-! Texts that are laid out in lines, words and numerals are read back as they were laid out. -/
namespace PixelCode.Text

section Pieces
variable {separates : Char → Bool} {c : Char} {w rest : List Char}

private theorem fields_word (hw : ∀ x ∈ w, separates x = false) : fields separates w = [w] := by
  induction w with
  | nil => rfl
  | cons x w ih =>
    obtain ⟨hx, hw⟩ := List.forall_mem_cons.1 hw
    rw [fields, hx, ih hw]
    rfl

theorem fields_word_append (hw : ∀ x ∈ w, separates x = false) (hc : separates c = true) :
    fields separates (w ++ c :: rest) = w :: fields separates rest := by
  induction w with
  | nil => rw [List.nil_append, fields, if_pos hc]
  | cons x w ih =>
    obtain ⟨hx, hw⟩ := List.forall_mem_cons.1 hw
    rw [List.cons_append, fields, hx, ih hw]
    rfl

/-- Texts joined by a separator that is in none of them are the fields of the joined text. -/
theorem fields_intercalate (hc : separates c = true) {ws : List (List Char)} (hne : ws ≠ [])
    (hws : ∀ w ∈ ws, ∀ x ∈ w, separates x = false) : fields separates ([c].intercalate ws) = ws := by
  induction ws with
  | nil => exact absurd rfl hne
  | cons w ws ih =>
    obtain ⟨hw, hws⟩ := List.forall_mem_cons.1 hws
    cases ws with
    | nil => rw [List.intercalate_singleton, fields_word hw]
    | cons w' ws =>
      rw [List.intercalate_cons_cons, List.append_assoc, List.singleton_append, fields_word_append hw hc,
        ih (List.cons_ne_nil _ _) hws]

theorem separates_of_mem_fields {cs : List Char} (hw : w ∈ fields separates cs) :
    ∀ x ∈ w, separates x = false := by
  induction cs generalizing w with
  | nil => simp_all [fields]
  | cons x cs ih =>
    rw [fields] at hw
    split at hw
    · rcases List.mem_cons.1 hw with rfl | hw
      · exact fun x hx => nomatch hx
      · exact ih hw
    next hx =>
      have hx : separates x = false := Bool.not_eq_true _ ▸ hx
      split at hw
      · rw [List.mem_singleton] at hw
        subst hw
        simpa using hx
      next piece pieces hfields =>
        rcases List.mem_cons.1 hw with rfl | hw
        · exact List.forall_mem_cons.2 ⟨hx, ih (hfields ▸ List.mem_cons_self)⟩
        · exact ih (hfields ▸ List.mem_cons_of_mem _ hw)

private theorem pieces_word (hw : ∀ x ∈ w, separates x = false) (hne : w ≠ []) :
    pieces separates w = [w] := by
  rw [pieces, fields_word hw]
  simp [hne]

private theorem pieces_word_append (hw : ∀ x ∈ w, separates x = false) (hne : w ≠ [])
    (hc : separates c = true) : pieces separates (w ++ c :: rest) = w :: pieces separates rest := by
  rw [pieces, fields_word_append hw hc, List.filter_cons_of_pos (by simpa using hne), pieces]

/-- Words joined by a separator are the pieces of the joined text. -/
theorem pieces_intercalate (hc : separates c = true) {ws : List (List Char)}
    (hws : ∀ w ∈ ws, w ≠ [] ∧ ∀ x ∈ w, separates x = false) :
    pieces separates ([c].intercalate ws) = ws := by
  induction ws with
  | nil => rfl
  | cons w ws ih =>
    obtain ⟨⟨hne, hw⟩, hws⟩ := List.forall_mem_cons.1 hws
    cases ws with
    | nil => rw [List.intercalate_singleton, pieces_word hw hne]
    | cons w' ws =>
      rw [List.intercalate_cons_cons, List.append_assoc, List.singleton_append,
        pieces_word_append hw hne hc, ih hws]

theorem mem_intercalate {x : Char} {ws : List (List Char)} (h : x ∈ [c].intercalate ws) :
    x = c ∨ ∃ w ∈ ws, x ∈ w := by
  induction ws with
  | nil => cases h
  | cons w ws ih =>
    cases ws with
    | nil =>
      rw [List.intercalate_singleton] at h
      exact .inr ⟨w, List.mem_cons_self, h⟩
    | cons w' ws =>
      rw [List.intercalate_cons_cons, List.append_assoc] at h
      rcases List.mem_append.1 h with h | h
      · exact .inr ⟨w, List.mem_cons_self, h⟩
      · rcases List.mem_cons.1 h with h | h
        · exact .inl h
        · obtain h | ⟨v, hv, hx⟩ := ih h
          · exact .inl h
          · exact .inr ⟨v, List.mem_cons_of_mem _ hv, hx⟩

theorem fields_ne_nil (cs : List Char) : fields separates cs ≠ [] := by
  cases cs with
  | nil => simp [fields]
  | cons x cs =>
    rw [fields]
    split
    · simp
    · split <;> simp

/-- A text is its fields with the separator between them, if there is only one. -/
theorem intercalate_fields (hc : ∀ x, separates x = true → x = c) (cs : List Char) :
    [c].intercalate (fields separates cs) = cs := by
  induction cs with
  | nil => rfl
  | cons x cs ih =>
    have hne : fields separates cs ≠ [] := fields_ne_nil cs
    obtain ⟨piece, pieces, hfields⟩ := List.exists_cons_of_ne_nil hne
    rw [hfields] at ih
    rw [fields, hfields]
    split
    next hx =>
      rw [List.intercalate_cons_cons, ih, hc x hx]
      rfl
    next =>
      cases pieces with
      | nil => simpa using ih
      | cons next pieces =>
        rw [List.intercalate_cons_cons] at ih ⊢
        simpa using ih

/-- A separator divides the fields of a text into those before it and those behind it. -/
theorem fields_append (hc : separates c = true) (cs : List Char) :
    fields separates (cs ++ c :: rest) = fields separates cs ++ fields separates rest := by
  induction cs with
  | nil => simp [fields, hc]
  | cons x cs ih =>
    rw [List.cons_append, fields, fields, ih]
    split
    · rfl
    · cases hfields : fields separates cs with
      | nil => exact absurd hfields (fields_ne_nil cs)
      | cons piece pieces => rfl

theorem pieces_append (hc : separates c = true) (cs : List Char) :
    pieces separates (cs ++ c :: rest) = pieces separates cs ++ pieces separates rest := by
  rw [pieces, fields_append hc, List.filter_append, pieces, pieces]

/-- A text that starts with no separator has a first piece, which starts with it. -/
theorem pieces_cons (hc : separates c = false) (cs : List Char) :
    ∃ piece more, pieces separates (c :: cs) = (c :: piece) :: more := by
  cases hfields : fields separates cs with
  | nil => exact absurd hfields (fields_ne_nil cs)
  | cons piece more =>
    refine ⟨piece, more.filter (! ·.isEmpty), ?_⟩
    rw [pieces, fields, hc, hfields]
    rfl

/-- The pieces of a text hold all of it but its separators. -/
theorem count_flatten_pieces (hc : separates c = false) (cs : List Char) :
    (pieces separates cs).flatten.count c = cs.count c := by
  have hfields : (fields separates cs).flatten.count c = cs.count c := by
    induction cs with
    | nil => rfl
    | cons x cs ih =>
      rw [fields]
      split
      next hx =>
        have hne : x ≠ c := by
          rintro rfl
          rw [hc] at hx
          cases hx
        rw [List.flatten_cons, List.nil_append, ih, List.count_cons_of_ne hne]
      next =>
        cases h : fields separates cs with
        | nil => exact absurd h (fields_ne_nil cs)
        | cons piece pieces =>
          rw [h] at ih
          rw [List.flatten_cons, List.cons_append, List.count_cons, List.count_cons, ← ih, List.flatten_cons]
  rw [pieces, List.flatten_filter_not_isEmpty, hfields]

end Pieces

/-- A line without line breaks in it ends at the line feed that follows it. -/
theorem lines_line_append {line : List Char} (h : ∀ c ∈ line, c ≠ '\n' ∧ c ≠ '\r')
    (rest : List Char) : lines (line ++ '\n' :: rest) = line :: lines rest := by
  induction line with
  | nil => rfl
  | cons c line ih =>
    obtain ⟨⟨hfeed, hret⟩, hline⟩ := List.forall_mem_cons.1 h
    have hcons : lines (c :: (line ++ '\n' :: rest)) = consFirst c (lines (line ++ '\n' :: rest)) := by
      rw [lines]
      · exact hfeed
      · intro cs hc _
        exact hret hc
    rw [List.cons_append, hcons, ih hline, consFirst]

/-- Lines that each end in a line feed are read back. -/
theorem lines_flatMap {ls : List (List Char)} (h : ∀ l ∈ ls, ∀ c ∈ l, c ≠ '\n' ∧ c ≠ '\r') :
    lines (ls.flatMap (· ++ ['\n'])) = ls := by
  induction ls with
  | nil => rfl
  | cons l ls ih =>
    obtain ⟨hl, hls⟩ := List.forall_mem_cons.1 h
    rw [List.flatMap_cons, List.append_assoc, List.singleton_append, lines_line_append hl, ih hls]

/-- A text without a line feed is one line, if it is not empty. -/
theorem lines_of_no_feed {cs : List Char} (h : '\n' ∉ cs) (hne : cs ≠ []) : lines cs = [cs] := by
  induction cs with
  | nil => exact absurd rfl hne
  | cons c cs ih =>
    obtain ⟨hc, hcs⟩ := List.ne_and_not_mem_of_not_mem_cons h
    have hcons : lines (c :: cs) = consFirst c (lines cs) := by
      rw [lines]
      · exact hc.symm
      · rintro rest - rfl
        exact hcs List.mem_cons_self
    cases cs with
    | nil => exact hcons
    | cons x cs => rw [hcons, ih hcs (List.cons_ne_nil x cs), consFirst]

section Numerals

private theorem digit?_of_isDigit {c : Char} (h : c.isDigit = true) :
    digit? 10 c = some (c.toNat - '0'.toNat) := by
  have hrange : '0' ≤ c ∧ c ≤ '9' := by
    simpa [Char.isDigit, Char.le_def] using h
  have hvalue : c.toNat - '0'.toNat < 10 := by
    have hle : c.toNat ≤ '9'.toNat := hrange.2
    have : '9'.toNat = '0'.toNat + 9 := rfl
    omega
  rw [digit?, if_pos hrange, if_pos hvalue]

private theorem continueDigits?_of_isDigit {cs : List Char} (h : ∀ c ∈ cs, c.isDigit = true)
    (acc : Nat) : continueDigits? 10 acc cs = some (Nat.ofDigitChars 10 cs acc) := by
  induction cs generalizing acc with
  | nil => rfl
  | cons c cs ih =>
    obtain ⟨hc, hcs⟩ := List.forall_mem_cons.1 h
    rw [continueDigits?, digit?_of_isDigit hc, Nat.ofDigitChars_cons, Nat.mul_comm 10 acc]
    exact ih hcs _

theorem digits?_of_isDigit {cs : List Char} (hne : cs ≠ []) (h : ∀ c ∈ cs, c.isDigit = true) :
    digits? 10 cs = some (Nat.ofDigitChars 10 cs 0) := by
  rw [digits?, continueDigits?_of_isDigit h]
  exact hne

/-- The decimal digits of a number stand for it. -/
theorem digits?_toDigits (n : Nat) : digits? 10 (Nat.toDigits 10 n) = some n := by
  have hdigits : ∀ c ∈ Nat.toDigits 10 n, c.isDigit = true :=
    fun c hc => Nat.isDigit_of_mem_toDigits (by decide) (by decide) hc
  rw [digits?_of_isDigit Nat.toDigits_ne_nil hdigits, Nat.ofDigitChars_ten_toDigits]

private theorem digit?_hexDigit {value : Nat} (h : value < 16) :
    digit? 16 (hexDigit value) = some value := by
  revert h
  revert value
  decide

theorem mem_hexByte {b : UInt8} {c : Char} (h : c ∈ hexByte b) : ∃ value, value < 16 ∧ c = hexDigit value := by
  have hhigh : b.toNat / 16 < 16 := by have := b.toNat_lt; omega
  have hlow : b.toNat % 16 < 16 := Nat.mod_lt _ (by decide)
  rcases List.mem_cons.1 h with hfirst | hsecond
  · exact ⟨_, hhigh, hfirst⟩
  · exact ⟨_, hlow, List.mem_singleton.1 hsecond⟩

/-- The two hexadecimal digits of a byte stand for it. -/
theorem digits?_hexByte (b : UInt8) : digits? 16 (hexByte b) = some b.toNat := by
  have hhigh : b.toNat / 16 < 16 := by have := b.toNat_lt; omega
  have hlow : b.toNat % 16 < 16 := Nat.mod_lt _ (by decide)
  simp only [hexByte, digits?, continueDigits?, digit?_hexDigit hhigh, digit?_hexDigit hlow,
    Option.some.injEq]
  omega

end Numerals
end PixelCode.Text
