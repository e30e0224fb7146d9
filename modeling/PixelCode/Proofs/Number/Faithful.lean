import PixelCode.Proofs.Number.Numeral

/-! Texts of numbers are faithful. Read as a numeral, the text of a finite number other than zero stands for the
shortest decimal of the number, so different numbers have different texts. -/
namespace PixelCode.Number

open Numeral
variable {v w : Float} {b c : Binary}

/-- The doubles nearest to `10 ^ -6` and `10 ^ 21`, between which no exponent is written. -/
def millionth : Binary := ⟨false, 4722366482869645, -72⟩
def sextillion : Binary := ⟨false, 7629394531250000, 17⟩

private theorem ofFloat_millionth : Reading.ofFloat 1e-6 = .finite millionth := by decide

private theorem ofFloat_sextillion : Reading.ofFloat 1e21 = .finite sextillion := by decide

private theorem isPositional_iff (h : Reading.ofFloat v = .finite b) :
    isPositional v = true ↔ millionth.value ≤ |b.value| ∧ |b.value| < sextillion.value := by
  have habs : Binary.value { b with negative := false } = |b.value| := b.abs_value.symm
  rw [isPositional, Bool.and_eq_true, decide_eq_true_iff, decide_eq_true_iff, le_iff ofFloat_millionth (ofFloat_abs h),
    lt_iff (ofFloat_abs h) ofFloat_sextillion, habs]

def decimalValue (b : Binary) : ℚ := if b.negative then -(Decimal.shortest b).value else (Decimal.shortest b).value

private theorem shortest_value_pos (hb : b.mantissa ≠ 0) : 0 < (Decimal.shortest b).value :=
  RoundingInterval.pos_of_covers hb (Decimal.covers_shortest hb).1

/-- The digits of a number, in one of the two forms and with a sign in front. -/
theorem toList_text (h : Reading.ofFloat v = .finite b) (hb : b.mantissa ≠ 0) :
    ∃ magnitude, (text v).toList = (if b.negative then '-' :: magnitude else magnitude) ∧
      magnitude = if isPositional v then (Decimal.shortest b).positional else (Decimal.shortest b).scientific := by
  refine ⟨_, ?_, rfl⟩
  have hsign : 'e' ∉ if b.negative then ['-'] else [] := by split <;> decide
  rw [text, h]
  dsimp only
  rw [if_neg hb, String.toList_ofList, Decimal.signExponent_exponential _ hsign]
  split <;> split <;> rfl

private theorem value?_text (h : Reading.ofFloat v = .finite b) (hb : b.mantissa ≠ 0) :
    value? (text v).toList = some (decimalValue b) := by
  obtain ⟨magnitude, htext, hmagnitude⟩ := toList_text h hb
  have hvalue : magnitude? magnitude = some (Decimal.shortest b).value := by
    rw [hmagnitude]
    split
    · exact Decimal.magnitude?_positional _
    · exact Decimal.magnitude?_scientific _
  rw [htext, decimalValue]
  cases b.negative with
  | false => exact value?_of_magnitude? hvalue
  | true =>
    rw [if_pos rfl, if_pos rfl, value?, hvalue]
    rfl

private theorem abs_decimalValue (hb : b.mantissa ≠ 0) :
    |decimalValue b| = (Decimal.shortest b).value := by
  have hpos := shortest_value_pos hb
  unfold decimalValue
  split
  · rw [abs_neg, abs_of_pos hpos]
  · rw [abs_of_pos hpos]

private theorem decimalValue_neg_iff (hb : b.mantissa ≠ 0) :
    decimalValue b < 0 ↔ b.negative = true := by
  have hpos := shortest_value_pos hb
  unfold decimalValue
  split
  next hminus => exact iff_of_true (neg_lt_zero.2 hpos) hminus
  next hplus => exact iff_of_false hpos.not_gt hplus

/-- Different numbers are written as different decimals. -/
theorem eq_of_decimalValue (hb : b.Canonical) (hc : c.Canonical) (hb' : b.mantissa ≠ 0) (hc' : c.mantissa ≠ 0)
    (h : decimalValue b = decimalValue c) : b = c := by
  have hsign : b.negative = c.negative := by
    rw [Bool.eq_iff_iff, ← decimalValue_neg_iff hb', ← decimalValue_neg_iff hc', h]
  have hvalue : (Decimal.shortest b).value = (Decimal.shortest c).value := by
    rw [← abs_decimalValue hb', ← abs_decimalValue hc', h]
  exact hb.ext hc hsign (Decimal.absValue_eq_of_shortest hb hc hb' hc' hvalue)

/-- An exponent is written exactly outside of the two bounds. -/
theorem mem_text_iff (h : Reading.ofFloat v = .finite b) (hb : b.mantissa ≠ 0) :
    'e' ∈ (text v).toList ↔ |b.value| < millionth.value ∨ sextillion.value ≤ |b.value| := by
  obtain ⟨magnitude, htext, hmagnitude⟩ := toList_text h hb
  have hsign : 'e' ∈ (text v).toList ↔ 'e' ∈ magnitude := by
    rw [htext]
    cases b.negative with
    | false => rfl
    | true => exact List.mem_cons.trans (or_iff_right (by decide))
  have hform : 'e' ∈ magnitude ↔ ¬isPositional v = true := by
    rw [hmagnitude]
    split
    next hpositional =>
      refine iff_of_false (fun hmem => ?_) (not_not_intro hpositional)
      exact absurd (Decimal.mem_positional hmem) (by decide)
    next hscientific =>
      refine iff_of_true ?_ hscientific
      rw [Decimal.scientific]
      exact List.mem_append_right _ List.mem_cons_self
  rw [hsign, hform, isPositional_iff h, not_and_or, not_le, not_lt]

/-- An exponent has a sign and digits. -/
theorem text_of_mem (h : Reading.ofFloat v = .finite b) (hb : b.mantissa ≠ 0) (he : 'e' ∈ (text v).toList) :
    ∃ front sign digits, (text v).toList = front ++ 'e' :: sign :: digits ∧ 'e' ∉ front ∧ (sign = '+' ∨ sign = '-') ∧
      digits ≠ [] ∧ ∀ c ∈ digits, c.isDigit = true := by
  obtain ⟨magnitude, htext, hmagnitude⟩ := toList_text h hb
  have hscientific : ¬isPositional v = true := by
    rw [isPositional_iff h, not_and_or, not_le, not_lt]
    exact (mem_text_iff h hb).1 he
  obtain ⟨sign, digits, hpower, hsign, hne, hdigits⟩ := (Decimal.shortest b).power_eq
  rw [if_neg hscientific, Decimal.scientific, hpower] at hmagnitude
  have hleading := (Decimal.shortest b).not_mem_leading
  rw [htext, hmagnitude]
  cases b.negative with
  | false => exact ⟨_, sign, digits, rfl, hleading, hsign, hne, hdigits⟩
  | true =>
    refine ⟨'-' :: (Decimal.shortest b).leading, sign, digits, rfl, ?_, hsign, hne, hdigits⟩
    exact List.not_mem_cons_of_ne_of_not_mem (by decide) hleading

/-- The texts of zero, of the infinities and of what is not a number are no numerals, or stand for zero. -/
theorem text_not_mem (h : Reading.ofFloat v = .finite b) (hb : b.mantissa ≠ 0) :
    text v ∉ ["NaN", "Infinity", "-Infinity", "0"] := by
  have hvalue := value?_text h hb
  have hother : ∀ s ∈ ["NaN", "Infinity", "-Infinity", "0"], value? s.toList = none ∨ value? s.toList = some 0 := by
    decide
  intro hmem
  rcases hother _ hmem with hnone | hzero
  · rw [hnone] at hvalue
    cases hvalue
  · rw [hzero] at hvalue
    have hpos := shortest_value_pos hb
    rw [← abs_decimalValue hb, ← Option.some.inj hvalue, abs_zero] at hpos
    exact hpos.false

theorem text_of_infinity {negative : Bool} (h : Reading.ofFloat v = .infinity negative) :
    text v = if negative then "-Infinity" else "Infinity" := by
  rw [text, h]

private theorem mantissa_ne_zero (h : Reading.ofFloat v = .finite b) (hzero : (v == 0.0) = false) :
    b.mantissa ≠ 0 :=
  fun hb => Bool.false_ne_true (hzero.symm.trans ((beq_zero_iff h).2 hb))

/-- Different numbers have different texts. -/
theorem eq_of_text (hv : v.isNaN = false) (hw : w.isNaN = false) (hv' : (v == 0.0) = false) (hw' : (w == 0.0) = false)
    (h : text v = text w) : v = w := by
  have hnan {u : Float} (hu : u.isNaN = false) : Reading.ofFloat u ≠ .nan := fun hread =>
    Bool.false_ne_true (hu.symm.trans (isNaN_iff.2 hread))
  have hinfinity {u u' : Float} {negative : Bool} {c : Binary} (hu : Reading.ofFloat u = .infinity negative)
      (hu' : Reading.ofFloat u' = .finite c) (hzero : (u' == 0.0) = false) : text u' ≠ text u := by
    intro htext
    apply text_not_mem hu' (mantissa_ne_zero hu' hzero)
    rw [htext, text_of_infinity hu]
    cases negative <;> decide
  apply eq_of_ofFloat ?_ (hnan hv)
  cases hread : Reading.ofFloat v with
  | nan => exact absurd hread (hnan hv)
  | infinity negative =>
    cases hread' : Reading.ofFloat w with
    | nan => exact absurd hread' (hnan hw)
    | infinity negative' =>
      rw [text_of_infinity hread, text_of_infinity hread'] at h
      cases negative <;> cases negative' <;> first | rfl | exact absurd h (by decide)
    | finite c => exact absurd h.symm (hinfinity hread hread' hw')
  | finite b =>
    cases hread' : Reading.ofFloat w with
    | nan => exact absurd hread' (hnan hw)
    | infinity negative' => exact absurd h (hinfinity hread' hread hv')
    | finite c =>
      have hb := mantissa_ne_zero hread hv'
      have hc := mantissa_ne_zero hread' hw'
      have hvalue := value?_text hread hb
      rw [h, value?_text hread' hc] at hvalue
      have hcanonical := canonical_of_ofFloat hread
      rw [eq_of_decimalValue hcanonical (canonical_of_ofFloat hread') hb hc (Option.some.inj hvalue).symm]

/-- The text of a finite number other than zero, read as a numeral, stands for the shortest decimal of the number, which
rounds to it. The text has an exponent exactly below the double nearest to `10 ^ -6` and from `10 ^ 21` on, and then one
with a sign. So numbers with the same text are the same, and none has a text that stands for zero or for no number. -/
theorem text_faithful :
    Reading.ofFloat 1e-6 = .finite millionth ∧ Reading.ofFloat 1e21 = .finite sextillion ∧
    (∀ v b, Reading.ofFloat v = .finite b → b.mantissa ≠ 0 →
      (Decimal.shortest b).Normal ∧ (RoundingInterval.ofBinary b).Covers (Decimal.shortest b).value ∧
      value? (text v).toList = some (decimalValue b) ∧
      ('e' ∈ (text v).toList ↔ |b.value| < millionth.value ∨ sextillion.value ≤ |b.value|) ∧
      ('e' ∈ (text v).toList →
        ∃ front sign digits, (text v).toList = front ++ 'e' :: sign :: digits ∧ 'e' ∉ front ∧
          (sign = '+' ∨ sign = '-') ∧ digits ≠ [] ∧ ∀ c ∈ digits, c.isDigit = true) ∧
      text v ∉ ["NaN", "Infinity", "-Infinity", "0"]) ∧
    ∀ v w : Float, v.isNaN = false → w.isNaN = false → (v == 0.0) = false → (w == 0.0) = false →
      text v = text w → v = w := by
  refine ⟨ofFloat_millionth, ofFloat_sextillion, fun v b h hb => ?_, fun v w => eq_of_text⟩
  exact ⟨Decimal.normal_shortest hb, (Decimal.covers_shortest hb).1, value?_text h hb, mem_text_iff h hb,
    text_of_mem h hb, text_not_mem h hb⟩

/-- The text of a small number has an exponent, and is not that of its negative. -/
theorem text_faithful_small :
    Reading.ofFloat 1.25e-7 = .finite ⟨false, 4722366482869645, -75⟩ ∧ 'e' ∈ (text 1.25e-7).toList ∧
      text 1.25e-7 ≠ text (-1.25e-7) := by
  have hread : Reading.ofFloat 1.25e-7 = .finite ⟨false, 4722366482869645, -75⟩ := by decide
  obtain ⟨-, -, hnumeral, hdifferent⟩ := text_faithful
  obtain ⟨-, -, -, hexponent, -, -⟩ := hnumeral _ _ hread (by decide)
  refine ⟨hread, hexponent.2 (.inl ?_), fun h => ?_⟩
  · norm_num [millionth, Binary.value, Binary.absValue]
  · have heq := hdifferent _ _ (by decide) (by decide) (by decide) (by decide) h
    exact absurd (congrArg Reading.ofFloat heq) (by decide)

end PixelCode.Number
