import PixelCode.Command.Host
import PixelCode.Proofs.Text.Feeds

/-! The error stream as lines. An entry of the log is one line, whatever its fields hold, and what else is told
ends its line. So the lines of the stream are those of its notices, one after the other. -/
namespace PixelCode

def OnLine (s : String) : Prop := '\n' ∉ s.toList

instance (s : String) : Decidable (OnLine s) := inferInstanceAs (Decidable (¬ _))

namespace OnLine

theorem append {a b : String} (ha : OnLine a) (hb : OnLine b) : OnLine (a ++ b) := by
  rw [OnLine, String.toList_append, List.mem_append]
  exact not_or.2 ⟨ha, hb⟩

theorem intercalate {separator : String} (hs : OnLine separator) {parts : List String}
    (h : ∀ part ∈ parts, OnLine part) : OnLine (separator.intercalate parts) := by
  induction parts with
  | nil => exact List.not_mem_nil
  | cons part parts ih =>
    obtain ⟨hpart, hparts⟩ := List.forall_mem_cons.1 h
    cases parts with
    | nil => rwa [String.intercalate_singleton]
    | cons next parts =>
      rw [String.intercalate_cons_cons]
      exact (hpart.append hs).append (ih hparts)

private theorem feed_not_mem_toDigitsCore {base n fuel : Nat} {digits : List Char}
    (h : '\n' ∉ digits) : '\n' ∉ Nat.toDigitsCore base fuel n digits := by
  induction fuel generalizing n digits with
  | zero => exact h
  | succ fuel ih =>
    have hmore : '\n' ∉ (n % base).digitChar :: digits :=
      List.not_mem_cons_of_ne_of_not_mem (Nat.digitChar_ne '\n' (by decide)).symm h
    rw [Nat.toDigitsCore]
    split
    · exact hmore
    · exact ih hmore

@[simp] theorem repr (n : Nat) : OnLine n.repr := by
  have h : '\n' ∉ Nat.toDigits 10 n := feed_not_mem_toDigitsCore List.not_mem_nil
  simpa [OnLine, Nat.repr] using h

/-- In quotes a line feed is written as an escape. -/
@[simp] theorem quoted (s : String) : OnLine (Text.quoted s) := by
  have hchar (c : Char) : '\n' ∉ Text.quotedChar c := by
    have hhex : '\n' ∉ Nat.toDigits 16 c.toNat := feed_not_mem_toDigitsCore List.not_mem_nil
    unfold Text.quotedChar
    repeat' split
    all_goals simp_all
    next hfeed _ _ => exact Ne.symm hfeed
  simp [OnLine, Text.quoted, hchar]

@[simp] theorem codes (codes : List UInt8) : OnLine (Event.codesText codes) := by
  refine append (append (by decide) (intercalate (by decide) ?_)) (by decide)
  simp only [List.mem_map]
  rintro _ ⟨code, -, rfl⟩
  exact repr code.toNat

end OnLine

/-- The line of an entry is one line if its message and its fields stay on it. -/
theorem Entry.onLine {e : Entry}
    (h : OnLine e.message ∧ ∀ field ∈ e.fields, OnLine field.1 ∧ OnLine field.2.text) : OnLine e.line := by
  have hlevel : OnLine e.level.name := by cases e.level <;> decide
  refine .intercalate (by decide) (List.forall_mem_cons.2 ⟨hlevel, List.forall_mem_cons.2 ⟨h.1, ?_⟩⟩)
  simp only [List.mem_map]
  rintro _ ⟨field, hfield, rfl⟩
  obtain ⟨hname, htext⟩ := h.2 field hfield
  exact (hname.append (by decide)).append htext

/-- What a run reports are single lines. -/
theorem Event.onLine (e : Event) : OnLine e.entry.line := by
  have hexception (x : Exception) : OnLine x.name := by
    unfold Exception.name
    split <;> decide
  have hcause (c : Fault.Cause) : OnLine c.name := by
    cases c <;> (dsimp only [Fault.Cause.name]; decide)
  apply Entry.onLine
  cases e <;> simp +decide [entry, message, fields, Field.text, hexception, hcause]

namespace Notice

def isLog : Notice → Bool
  | log _ => true
  | text _ => false

def Whole : Notice → Prop
  | log e => OnLine e.line
  | text s => ∃ told, s = told ++ "\n"

def lines : Notice → List (Bool × List Char)
  | log e => [(true, e.line.toList)]
  | text s => (Text.fields Text.isFeed s.toList).dropLast.map (false, ·)

end Notice

def errorText (stderr : Array Notice) : String := String.join (stderr.toList.map Notice.render)

def errorLines (stderr : Array Notice) : List (Bool × List Char) := stderr.toList.flatMap Notice.lines

/-- A notice of whole lines puts its lines in front of those that follow. -/
theorem Notice.Whole.fields_append {n : Notice} (h : n.Whole) (rest : List Char) :
    Text.fields Text.isFeed (n.render.toList ++ rest) =
      n.lines.map Prod.snd ++ Text.fields Text.isFeed rest := by
  cases n with
  | log e =>
    have hline : ∀ c ∈ e.line.toList, Text.isFeed c = false := by
      intro c hc
      exact beq_eq_false_iff_ne.2 fun heq => h (heq ▸ hc)
    simp [render, lines, Text.fields_word_append hline (show Text.isFeed '\n' = true from rfl)]
  | text s =>
    obtain ⟨told, rfl⟩ := h
    have hsplit (more : List Char) : Text.fields Text.isFeed (told.toList ++ '\n' :: more) =
        Text.fields Text.isFeed told.toList ++ Text.fields Text.isFeed more := Text.fields_append rfl _
    simp [render, lines, hsplit, Text.fields, Function.comp_def]

/-- What stands between the line feeds on the error stream are its lines, with nothing behind the last line feed. -/
theorem fields_errorText {stderr : Array Notice} (h : ∀ n ∈ stderr.toList, n.Whole) :
    Text.fields Text.isFeed (errorText stderr).toList = (errorLines stderr).map Prod.snd ++ [[]] := by
  rw [errorText, errorLines, String.toList_join]
  generalize stderr.toList = notices at h
  induction notices with
  | nil => rfl
  | cons n notices ih =>
    obtain ⟨hn, hnotices⟩ := List.forall_mem_cons.1 h
    rw [List.map_cons, List.flatMap_cons, hn.fields_append, ih hnotices, List.flatMap_cons, List.map_append,
      List.append_assoc]

end PixelCode
