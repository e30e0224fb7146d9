import PixelCode.Proofs.Text.Layout

/-! Lines and the line feeds between them. The lines of a text are its fields between line feeds, without the
carriage return that a feed takes with it, and without an empty last field. So two texts that a line feed joins
have their own lines one after another, up to the last line of the first text: it loses a carriage return, or
comes to be a line though it is empty. -/
namespace PixelCode.Text

def isFeed (c : Char) : Bool := c == '\n'

def withoutReturn (line : List Char) : List Char :=
  if line.getLast? = some '\r' then line.dropLast else line

def lastLine (field : List Char) : List (List Char) :=
  if field = [] then [] else [field]

private theorem eq_or_eq_append_return (line : List Char) :
    withoutReturn line = line ∨ line = withoutReturn line ++ ['\r'] := by
  unfold withoutReturn
  split
  next hlast =>
    obtain ⟨rest, rfl⟩ := List.getLast?_eq_some_iff.1 hlast
    exact .inr (by rw [List.dropLast_concat])
  next => exact .inl rfl

/-- What does not depend on a carriage return at the end of a line is the same without it. -/
theorem apply_withoutReturn {α : Type} {f : List Char → α} (h : ∀ line, f (line ++ ['\r']) = f line)
    (line : List Char) : f (withoutReturn line) = f line := by
  rcases eq_or_eq_append_return line with hsame | hreturn
  · rw [hsame]
  · calc
      f (withoutReturn line) = f (withoutReturn line ++ ['\r']) := (h _).symm
      _ = f line := by rw [← hreturn]

private theorem withoutReturn_isPrefix (line : List Char) : withoutReturn line <+: line := by
  unfold withoutReturn
  split
  · exact List.dropLast_prefix line
  · exact List.prefix_refl line

private theorem withoutReturn_cons {c : Char} {line : List Char} (h : c = '\r' → line ≠ []) :
    withoutReturn (c :: line) = c :: withoutReturn line := by
  cases line with
  | nil =>
    have hc : c ≠ '\r' := fun hc => h hc rfl
    simp [withoutReturn, hc]
  | cons x line =>
    simp only [withoutReturn, List.getLast?_cons_cons, List.dropLast_cons_cons]
    split <;> rfl

section Fields
variable {c : Char} {cs : List Char}

private theorem fields_feed (cs : List Char) :
    fields isFeed ('\n' :: cs) = [] :: fields isFeed cs := rfl

private theorem fields_cons {field : List Char} {rest : List (List Char)} (hc : c ≠ '\n')
    (h : fields isFeed cs = field :: rest) : fields isFeed (c :: cs) = (c :: field) :: rest := by
  have hfeed : isFeed c = false := beq_false_of_ne hc
  rw [fields, hfeed, h]
  rfl

/-- An empty field with others behind it ends at a line feed. -/
theorem eq_feed_of_fields {rest : List (List Char)} (h : fields isFeed cs = [] :: rest) (hrest : rest ≠ []) :
    ∃ more, cs = '\n' :: more := by
  cases cs with
  | nil =>
    cases h
    exact absurd rfl hrest
  | cons c cs =>
    by_cases hc : c = '\n'
    · exact ⟨cs, by rw [hc]⟩
    · cases hfields : fields isFeed cs with
      | nil => exact absurd hfields (fields_ne_nil cs)
      | cons field more =>
        rw [fields_cons hc hfields] at h
        cases h

private theorem length_fields (cs : List Char) : (fields isFeed cs).length = cs.count '\n' + 1 := by
  induction cs with
  | nil => rfl
  | cons c cs ih =>
    by_cases hc : c = '\n'
    · rw [hc, fields_feed, List.length_cons, ih, List.count_cons_self]
    · cases hfields : fields isFeed cs with
      | nil => exact absurd hfields (fields_ne_nil cs)
      | cons field rest =>
        rw [fields_cons hc hfields, List.count_cons_of_ne hc, ← ih, hfields]
        rfl

end Fields

/-- The fields of a text between line feeds, and its lines. -/
theorem exists_fields_lines (cs : List Char) :
    ∃ ended last, fields isFeed cs = ended ++ [last] ∧ lines cs = ended.map withoutReturn ++ lastLine last := by
  fun_induction lines cs with
  | case1 => exact ⟨[], [], rfl, rfl⟩
  | case2 cs ih =>
    obtain ⟨ended, last, hfields, hlines⟩ := ih
    exact ⟨[] :: ended, last, by rw [fields_feed, hfields]; rfl, by rw [hlines]; rfl⟩
  | case3 cs ih =>
    obtain ⟨ended, last, hfields, hlines⟩ := ih
    refine ⟨['\r'] :: ended, last, ?_, by rw [hlines]; rfl⟩
    rw [fields_cons (by decide) (fields_feed cs), hfields]
    rfl
  | case4 c cs hfeed hreturn ih =>
    obtain ⟨ended, last, hfields, hlines⟩ := ih
    cases ended with
    | nil =>
      refine ⟨[], c :: last, fields_cons hfeed hfields, ?_⟩
      rw [hlines]
      by_cases hlast : last = []
      · rw [hlast]
        rfl
      · simp [lastLine, hlast, consFirst]
    | cons field ended =>
      refine ⟨(c :: field) :: ended, last, fields_cons hfeed hfields, ?_⟩
      have hkept : c = '\r' → field ≠ [] := by
        rintro rfl rfl
        obtain ⟨more, hmore⟩ := eq_feed_of_fields hfields (by simp)
        exact hreturn more rfl hmore
      rw [hlines, List.map_cons, List.map_cons, withoutReturn_cons hkept]
      rfl

private theorem lines_of_fields {cs last : List Char} {ended : List (List Char)}
    (h : fields isFeed cs = ended ++ [last]) : lines cs = ended.map withoutReturn ++ lastLine last := by
  obtain ⟨ended', last', hfields, hlines⟩ := exists_fields_lines cs
  obtain ⟨rfl, hlast⟩ := List.append_inj' (h.symm.trans hfields) rfl
  cases hlast
  exact hlines

theorem toList_join (t₁ t₂ : String) : (t₁ ++ "\n" ++ t₂).toList = t₁.toList ++ '\n' :: t₂.toList := by
  rw [String.toList_append, String.toList_append, List.append_assoc]
  rfl

/-- The lines of two texts that a line feed joins. -/
theorem lines_join (cs rest : List Char) :
    ∃ before last, before.length = cs.count '\n' ∧ lines cs = before ++ lastLine last ∧
      lines (cs ++ '\n' :: rest) = before ++ withoutReturn last :: lines rest := by
  obtain ⟨ended, last, hfields, hlines⟩ := exists_fields_lines cs
  obtain ⟨ended', last', hfields', hlines'⟩ := exists_fields_lines rest
  refine ⟨ended.map withoutReturn, last, ?_, hlines, ?_⟩
  · have hlength := length_fields cs
    rw [hfields, List.length_append, List.length_singleton] at hlength
    rw [List.length_map]
    omega
  · have hjoined : fields isFeed (cs ++ '\n' :: rest) = (ended ++ last :: ended') ++ [last'] := by
      rw [fields_append rfl, hfields, hfields']
      simp
    rw [lines_of_fields hjoined, hlines']
    simp

/-- No line has a line feed in it. -/
theorem feed_not_mem_of_mem_lines {cs line : List Char} (h : line ∈ lines cs) : '\n' ∉ line := by
  obtain ⟨ended, last, hfields, hlines⟩ := exists_fields_lines cs
  have hfield {field : List Char} (hmem : field ∈ ended ++ [last]) : '\n' ∉ field := by
    intro hfeed
    exact absurd (separates_of_mem_fields (hfields ▸ hmem) '\n' hfeed) (by decide)
  rw [hlines] at h
  rcases List.mem_append.1 h with hended | hlast
  · obtain ⟨field, hmem, rfl⟩ := List.mem_map.1 hended
    exact fun hfeed => hfield (List.mem_append_left _ hmem) ((withoutReturn_isPrefix field).subset hfeed)
  · unfold lastLine at hlast
    split at hlast
    next => cases hlast
    next => exact hfield (List.mem_append_right _ hlast)

end PixelCode.Text
