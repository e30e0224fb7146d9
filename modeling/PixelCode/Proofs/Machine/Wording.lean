import PixelCode.Fault
import PixelCode.Proofs.Number.Faithful

/-! The report of a fault. It names the cause, the operation, the position and the values on the stack: faults with the same
report agree in all of these. -/
namespace PixelCode

namespace Numeral

/-- Texts before the first mark, and those behind it, can be told apart. -/
private theorem eq_of_mark {mark : Char} {front front' rest rest' : List Char}
    (hfront : mark ∉ front) (hfront' : mark ∉ front') (h : front ++ mark :: rest = front' ++ mark :: rest') : front = front' ∧ rest = rest' := by
  have hbefore := congrArg (before mark) h
  have hafter := congrArg (after? mark) h
  rw [before_append hfront, before_append hfront'] at hbefore
  rw [after?_append hfront, after?_append hfront'] at hafter
  exact ⟨hbefore, Option.some.inj hafter⟩

end Numeral

namespace Number

private theorem comma_of_magnitude (d : Decimal) :
    (d.positional ≠ [] ∧ ',' ∉ d.positional) ∧ d.scientific ≠ [] ∧ ',' ∉ d.scientific := by
  have hdigit : ¬ (','.isDigit = true ∨ ',' = '.') := by decide
  refine ⟨⟨fun hnil => ?_, fun hmem => hdigit (Decimal.mem_positional hmem)⟩, by simp [Decimal.scientific], ?_⟩
  · have hvalue := Decimal.fixed?_positional d
    rw [hnil] at hvalue
    cases hvalue
  · obtain ⟨sign, digits, hpower, hsign, -, hdigits⟩ := d.power_eq
    rw [Decimal.scientific, hpower, List.mem_append, List.mem_cons, List.mem_cons]
    rintro (hmem | hmem | hmem | hmem)
    · exact hdigit (Decimal.mem_leading hmem)
    · cases hmem
    · rcases hsign with rfl | rfl <;> cases hmem
    · exact hdigit (.inl (hdigits _ hmem))

/-- The text of a number is not empty, and has no comma. -/
private theorem comma_of_text (v : Float) : (text v).toList ≠ [] ∧ ',' ∉ (text v).toList := by
  have hword : ∀ s ∈ ["NaN", "Infinity", "-Infinity", "0"], s.toList ≠ [] ∧ ',' ∉ s.toList := by decide
  cases h : Reading.ofFloat v with
  | nan => exact hword _ (by simp [text, h])
  | infinity negative =>
    rw [text_of_infinity h]
    cases negative <;> exact hword _ (by decide)
  | finite b =>
    by_cases hb : b.mantissa = 0
    · exact hword _ (by simp [text, h, hb])
    · obtain ⟨magnitude, htext, hmagnitude⟩ := toList_text h hb
      obtain ⟨hpositional, hscientific⟩ := comma_of_magnitude (Decimal.shortest b)
      have hcomma : magnitude ≠ [] ∧ ',' ∉ magnitude := by
        rw [hmagnitude]
        split
        · exact hpositional
        · exact hscientific
      rw [htext]
      split
      · simpa using hcomma.2
      · exact hcomma

end Number

/-- Texts without commas are known from what they are joined to. -/
private theorem eq_of_joined {ws vs : List (List Char)} (hws : ∀ w ∈ ws, w ≠ [] ∧ ',' ∉ w)
    (hvs : ∀ v ∈ vs, v ≠ [] ∧ ',' ∉ v) (h : [',', ' '].intercalate ws = [',', ' '].intercalate vs) : ws = vs := by
  induction ws generalizing vs with
  | nil =>
    match vs with
    | [] => rfl
    | [v] => exact absurd (by simpa using h.symm) (hvs v (by simp)).1
    | v :: v' :: vs => simp [List.intercalate_cons_cons] at h
  | cons w ws ih =>
    obtain ⟨⟨hne, hcomma⟩, hws⟩ := List.forall_mem_cons.1 hws
    match ws, vs with
    | [], [] => exact absurd (by simpa using h) hne
    | _ :: _, [] => simp [List.intercalate_cons_cons] at h
    | [], [v] => simpa using h
    | [], v :: v' :: vs =>
      refine absurd ?_ hcomma
      rw [List.intercalate_singleton] at h
      rw [h, List.intercalate_cons_cons]
      simp
    | w' :: ws, [v] =>
      refine absurd ?_ (hvs v (by simp)).2
      rw [List.intercalate_singleton] at h
      rw [← h, List.intercalate_cons_cons]
      simp
    | w' :: ws, v :: v' :: vs =>
      obtain ⟨⟨-, hcomma'⟩, hvs⟩ := List.forall_mem_cons.1 hvs
      rw [List.intercalate_cons_cons, List.intercalate_cons_cons, List.append_assoc, List.append_assoc] at h
      obtain ⟨hfirst, hrest⟩ := Numeral.eq_of_mark hcomma hcomma' h
      rw [hfirst, ih hws hvs (List.cons.inj hrest).2]

namespace Fault

private def opening (f : Fault) : List Char :=
  "InterpreterError: ".toList ++ f.cause.text.toList ++ (" during ".toList ++ (Opcode.nameOf f.opcode).toList ++
    " (0x".toList) ++ Text.hexByte f.opcode ++ (") operation".toList ++ " at pc".toList)

private def values (f : Fault) : List Char :=
  ", ".toList.intercalate ((f.stack.map Number.text).map String.toList)

private theorem toList_message (f : Fault) :
    f.message.toList =
      f.opening ++ '=' :: (Nat.toDigits 10 f.pc ++ '\n' :: ("\t[".toList ++ f.values ++ "]".toList)) := by
  have hposition : " at pc=".toList = " at pc".toList ++ ['='] := by decide
  have hstack : "\n\t[".toList = '\n' :: "\t[".toList := by decide
  have hmessage : f.message = "InterpreterError: " ++ f.cause.text ++ " during " ++ Opcode.nameOf f.opcode ++ " (0x" ++
      String.ofList (Text.hexByte f.opcode) ++ ") operation" ++
        (" at pc=" ++ f.pc.repr ++ "\n\t[" ++ ", ".intercalate (f.stack.map Number.text) ++ "]") := rfl
  have hlist := congrArg String.toList hmessage
  simp only [String.toList_append, String.toList_ofList, Nat.repr, String.toList_intercalate, hposition, hstack] at hlist
  refine hlist.trans ?_
  unfold opening values
  simp only [List.append_assoc, List.cons_append, List.nil_append]

private theorem not_mem_opening (f : Fault) : '=' ∉ f.opening := by
  have hcause : '=' ∉ f.cause.text.toList := by
    cases f.cause with
    | unhandled e =>
      have hexception : e.name = "DivisionByZero" ∨ e.name = "UNKNOWN_EXCEPTION" := by
        unfold Exception.name
        split
        · exact .inl rfl
        · exact .inr rfl
      show '=' ∉ ("UnhandledException" ++ " (" ++ e.name ++ ")").toList
      rcases hexception with hname | hname <;> rw [hname] <;> decide
    | _ => decide
  have hname : '=' ∉ (Opcode.nameOf f.opcode).toList := by
    unfold Opcode.nameOf
    split
    next op _ => cases op <;> decide
    next => decide
  have hbyte : '=' ∉ Text.hexByte f.opcode := by
    intro hmem
    obtain ⟨value, hvalue, heq⟩ := Text.mem_hexByte hmem
    revert heq
    revert value
    decide
  unfold opening
  simp only [List.mem_append, not_or]
  exact ⟨⟨⟨⟨by decide, hcause⟩, ⟨by decide, hname⟩, by decide⟩, hbyte⟩, by decide, by decide⟩

private theorem eq_of_hexByte {b c : UInt8} (h : Text.hexByte b = Text.hexByte c) : b = c := by
  have hvalue := congrArg (Text.digits? 16) h
  rw [Text.digits?_hexByte, Text.digits?_hexByte] at hvalue
  exact UInt8.toNat_inj.1 (Option.some.inj hvalue)

private theorem eq_of_opening {f g : Fault} (h : f.opening = g.opening) :
    f.cause.text = g.cause.text ∧ f.opcode = g.opcode := by
  unfold opening at h
  obtain ⟨hfront, hbyte⟩ := List.append_inj' (List.append_cancel_right h) rfl
  have hopcode := eq_of_hexByte hbyte
  rw [hopcode] at hfront
  exact ⟨String.toList_injective (List.append_cancel_left (List.append_cancel_right hfront)), hopcode⟩

/-- The report of a fault says what its cause is, which operation could not be carried out and where, and which values were
on the stack. -/
theorem message_eq_iff {f g : Fault} :
    f.message = g.message ↔ f.cause.text = g.cause.text ∧ f.opcode = g.opcode ∧ f.pc = g.pc ∧
      f.stack.map Number.text = g.stack.map Number.text := by
  constructor
  · intro h
    have hlist := congrArg String.toList h
    rw [toList_message, toList_message] at hlist
    obtain ⟨hopening, hrest⟩ := Numeral.eq_of_mark f.not_mem_opening g.not_mem_opening hlist
    have hfeed (n : Nat) : '\n' ∉ Nat.toDigits 10 n := by
      intro hmem
      cases Nat.isDigit_of_mem_toDigits (by decide) (by decide) hmem
    obtain ⟨hdigits, hstack⟩ := Numeral.eq_of_mark (hfeed f.pc) (hfeed g.pc) hrest
    have hpc : f.pc = g.pc := by
      rw [← Nat.ofDigitChars_ten_toDigits (n := f.pc), hdigits, Nat.ofDigitChars_ten_toDigits]
    have hcomma (stack : List Float) : ∀ w ∈ (stack.map Number.text).map String.toList, w ≠ [] ∧ ',' ∉ w := by
      simp only [List.map_map, List.mem_map]
      rintro _ ⟨v, -, rfl⟩
      exact Number.comma_of_text v
    have hvalues := eq_of_joined (hcomma f.stack) (hcomma g.stack)
      (List.append_cancel_left (List.append_cancel_right hstack))
    obtain ⟨hcause, hopcode⟩ := eq_of_opening hopening
    exact ⟨hcause, hopcode, hpc, List.map_injective_iff.2 (fun _ _ => String.toList_injective) hvalues⟩
  · rintro ⟨hcause, hopcode, hpc, hstack⟩
    unfold message
    rw [hcause, hopcode, hpc, hstack]

end Fault
end PixelCode
