import PixelCode.Number.Text
import PixelCode.Proofs.Number.Shortest
import PixelCode.Proofs.Text.Layout

/-! Decimal numerals: what a text of digits, point and exponent stands for, and that both ways to write a decimal stand
for its value. -/
namespace PixelCode

namespace Numeral

def before (mark : Char) (cs : List Char) : List Char := cs.takeWhile (· ≠ mark)

def after? (mark : Char) (cs : List Char) : Option (List Char) := (cs.dropWhile (· ≠ mark)).tail?

def fixed? (cs : List Char) : Option ℚ :=
  match after? '.' cs with
  | none => do
    let whole ← Text.digits? 10 cs
    return whole
  | some fraction => do
    let whole ← Text.digits? 10 (before '.' cs)
    let parts ← Text.digits? 10 fraction
    return whole + parts / 10 ^ fraction.length

def exponent? : List Char → Option ℤ
  | '+' :: cs => do
    let n ← Text.digits? 10 cs
    return n
  | '-' :: cs => do
    let n ← Text.digits? 10 cs
    return -n
  | _ => none

/-- The value of a numeral without its sign: digits, and after an `e` the power of ten that they are multiplied by. -/
def magnitude? (cs : List Char) : Option ℚ :=
  match after? 'e' cs with
  | none => fixed? cs
  | some power => do
    let x ← fixed? (before 'e' cs)
    let k ← exponent? power
    return x * 10 ^ k

def value? : List Char → Option ℚ
  | '-' :: cs => do
    let x ← magnitude? cs
    return -x
  | cs => magnitude? cs

variable {mark : Char} {front rest cs : List Char}

theorem before_append (h : mark ∉ front) : before mark (front ++ mark :: rest) = front := by
  have hfront : ∀ c ∈ front, decide (c ≠ mark) = true := fun c hc => decide_eq_true fun heq => h (heq ▸ hc)
  rw [before, List.takeWhile_append_of_pos hfront]
  simp

theorem after?_append (h : mark ∉ front) : after? mark (front ++ mark :: rest) = some rest := by
  have hfront : ∀ c ∈ front, decide (c ≠ mark) = true := fun c hc => decide_eq_true fun heq => h (heq ▸ hc)
  rw [after?, List.dropWhile_append_of_pos hfront]
  simp

private theorem after?_of_not_mem (h : mark ∉ cs) : after? mark cs = none := by
  have hcs : ∀ c ∈ cs, decide (c ≠ mark) = true := fun c hc => decide_eq_true fun heq => h (heq ▸ hc)
  rw [after?, List.dropWhile_eq_nil_iff.2 hcs]
  rfl

section Digits
variable {whole fraction : List Char}

private theorem not_mem_of_isDigit (h : ∀ c ∈ cs, c.isDigit = true) (hmark : mark.isDigit = false) :
    mark ∉ cs :=
  fun hmem => Bool.false_ne_true (hmark.symm.trans (h mark hmem))

private theorem fixed?_whole (hne : cs ≠ []) (h : ∀ c ∈ cs, c.isDigit = true) :
    fixed? cs = some (Nat.ofDigitChars 10 cs 0 : ℚ) := by
  rw [fixed?, after?_of_not_mem (not_mem_of_isDigit h rfl), Text.digits?_of_isDigit hne h]
  rfl

/-- A point divides by a power of ten the number that the digits stand for without it. -/
theorem fixed?_fraction (hwhole : whole ≠ []) (hfraction : fraction ≠ [])
    (h : ∀ c ∈ whole ++ fraction, c.isDigit = true) :
    fixed? (whole ++ '.' :: fraction) =
      some (Nat.ofDigitChars 10 (whole ++ fraction) 0 / 10 ^ fraction.length : ℚ) := by
  obtain ⟨hw, hf⟩ := List.forall_mem_append.1 h
  have hpoint : '.' ∉ whole := not_mem_of_isDigit hw rfl
  have hjoined : Nat.ofDigitChars 10 (whole ++ fraction) 0 =
      10 ^ fraction.length * Nat.ofDigitChars 10 whole 0 + Nat.ofDigitChars 10 fraction 0 := by
    rw [Nat.ofDigitChars_append]
    exact Nat.ofDigitChars_eq_ofDigitChars_zero
  rw [fixed?, after?_append hpoint, before_append hpoint]
  dsimp only
  rw [Text.digits?_of_isDigit hwhole hw, Text.digits?_of_isDigit hfraction hf, hjoined]
  refine congrArg some ?_
  push_cast
  field_simp

end Digits

/-- A numeral has one minus at most. -/
theorem magnitude?_minus (cs : List Char) : magnitude? ('-' :: cs) = none := by
  have hfixed (cs : List Char) : fixed? ('-' :: cs) = none := by
    rw [fixed?]
    cases after? '.' ('-' :: cs) with
    | none => rfl
    | some fraction => rfl
  rw [magnitude?]
  cases after? 'e' ('-' :: cs) with
  | none => exact hfixed cs
  | some power =>
    have hbefore : before 'e' ('-' :: cs) = '-' :: before 'e' cs := rfl
    dsimp only
    rw [hbefore, hfixed]
    rfl

theorem value?_of_magnitude? {x : ℚ} (h : magnitude? cs = some x) : value? cs = some x := by
  unfold value?
  split
  next cs =>
    rw [magnitude?_minus] at h
    cases h
  next => exact h

end Numeral

namespace Decimal
open Numeral
variable {d : Decimal}

private theorem digits_ne_nil (d : Decimal) : d.digits ≠ [] := Nat.toDigits_ne_nil

private theorem isDigit_digits (d : Decimal) : ∀ c ∈ d.digits, c.isDigit = true :=
  fun _ hc => Nat.isDigit_of_mem_toDigits (by decide) (by decide) hc

private theorem ofDigitChars_digits (d : Decimal) :
    Nat.ofDigitChars 10 d.digits 0 = d.coefficient :=
  Nat.ofDigitChars_ten_toDigits

private theorem isDigit_replicate (k : Nat) : ∀ c ∈ List.replicate k '0', c.isDigit = true := by
  intro c hc
  rw [List.eq_of_mem_replicate hc]
  rfl

/-- The digits of a number other than zero do not begin with a zero. -/
theorem head?_toDigits {n : Nat} (h : n ≠ 0) : (Nat.toDigits 10 n).head? ≠ some '0' := by
  induction n using Nat.strongRecOn with
  | ind n ih =>
    rw [Nat.toDigits_eq_if (by decide)]
    split
    next hlt =>
      have hdigit : ∀ m < 10, m ≠ 0 → [Nat.digitChar m].head? ≠ some '0' := by decide
      exact hdigit n hlt h
    next hge =>
      rw [List.head?_append_of_ne_nil _ Nat.toDigits_ne_nil]
      exact ih (n / 10) (by omega) (by omega)

private theorem getLast?_toDigits {n : Nat} (h : n % 10 ≠ 0) :
    (Nat.toDigits 10 n).getLast? ≠ some '0' := by
  have hdigit : ∀ m < 10, m ≠ 0 → some (Nat.digitChar m) ≠ some '0' := by decide
  rw [Nat.toDigits_eq_if (by decide)]
  split
  next hlt => exact hdigit n hlt (by omega)
  next =>
    rw [List.getLast?_concat]
    exact hdigit (n % 10) (Nat.mod_lt n (by decide)) h

private theorem value_of_exponent_eq {k : Nat} (h : d.exponent = k) :
    d.value = d.coefficient * 10 ^ k := by
  rw [value, h, zpow_natCast]

private theorem value_of_exponent_eq_neg {k : Nat} (h : d.exponent = -k) :
    d.value = d.coefficient / 10 ^ k := by
  rw [value, h, zpow_neg, zpow_natCast]
  rfl

/-- Digits `d` with no zero at either end and a power of ten, for `0.d` times that power. -/
structure Normal (d : Decimal) : Prop where
  head : d.digits.head? ≠ some '0'
  last : d.digits.getLast? ≠ some '0'
  value_eq : d.value = Nat.ofDigitChars 10 d.digits 0 / 10 ^ d.digits.length * 10 ^ d.pointPosition

private theorem normal_of_coefficient (h : d.coefficient % 10 ≠ 0) : d.Normal := by
  refine ⟨head?_toDigits fun hzero => h (by rw [hzero]), getLast?_toDigits h, ?_⟩
  rw [ofDigitChars_digits, value, pointPosition, zpow_add₀ (by norm_num), zpow_natCast]
  field_simp

theorem normal_shortest {b : Binary} (hb : b.mantissa ≠ 0) : (shortest b).Normal :=
  normal_of_coefficient (covers_shortest hb).2

/-- The digits with a point after the first `k` of them. -/
theorem fixed?_split {k : Nat} (hpos : 0 < k) (hlt : k < d.digits.length) :
    fixed? (d.digits.take k ++ '.' :: d.digits.drop k) = some (d.coefficient / 10 ^ (d.digits.length - k) : ℚ) := by
  have hall : ∀ c ∈ d.digits.take k ++ d.digits.drop k, c.isDigit = true := by
    rw [List.take_append_drop]
    exact d.isDigit_digits
  have htake : d.digits.take k ≠ [] := by
    intro hnil
    rcases List.take_eq_nil_iff.1 hnil with hzero | hdigits
    · omega
    · exact d.digits_ne_nil hdigits
  have hdrop : d.digits.drop k ≠ [] := by
    intro hnil
    have := List.drop_eq_nil_iff.1 hnil
    omega
  rw [fixed?_fraction htake hdrop hall, List.take_append_drop, ofDigitChars_digits, List.length_drop]

theorem fixed?_positional (d : Decimal) : fixed? d.positional = some d.value := by
  have hpoint : d.pointPosition = d.exponent + d.digits.length := rfl
  unfold positional
  dsimp only
  split
  next hsmall =>
    have hall : ∀ c ∈ ['0'] ++ (List.replicate (-d.pointPosition).toNat '0' ++ d.digits), c.isDigit = true :=
      List.forall_mem_append.2
        ⟨isDigit_replicate 1, List.forall_mem_append.2 ⟨isDigit_replicate _, d.isDigit_digits⟩⟩
    have hzeros : Nat.ofDigitChars 10 (['0'] ++ (List.replicate (-d.pointPosition).toNat '0' ++ d.digits)) 0 =
        d.coefficient := by
      rw [← d.ofDigitChars_digits, Nat.ofDigitChars_append, Nat.ofDigitChars_append, Nat.ofDigitChars_replicate_zero]
      rfl
    refine (fixed?_fraction (List.cons_ne_nil _ _) (List.append_ne_nil_of_right_ne_nil _ d.digits_ne_nil) hall).trans ?_
    rw [hzeros, List.length_append, List.length_replicate]
    exact congrArg some (value_of_exponent_eq_neg (by omega)).symm
  next hlarge =>
    split
    next hinside =>
      rw [fixed?_split (by omega) (by omega)]
      exact congrArg some (value_of_exponent_eq_neg (by omega)).symm
    next hwhole =>
      have hall : ∀ c ∈ d.digits ++ List.replicate (d.pointPosition.toNat - d.digits.length) '0', c.isDigit = true :=
        List.forall_mem_append.2 ⟨d.isDigit_digits, isDigit_replicate _⟩
      rw [fixed?_whole (List.append_ne_nil_of_left_ne_nil d.digits_ne_nil _) hall, Nat.ofDigitChars_append,
        ofDigitChars_digits, Nat.ofDigitChars_replicate_zero, Nat.cast_mul, Nat.cast_pow, Nat.cast_ofNat, mul_comm]
      exact congrArg some (value_of_exponent_eq (by omega)).symm

private theorem mem_split {k : Nat} {c : Char} (h : c ∈ d.digits.take k ++ '.' :: d.digits.drop k) :
    c.isDigit = true ∨ c = '.' := by
  rcases List.mem_append.1 h with htake | hrest
  · exact .inl (d.isDigit_digits c (List.mem_of_mem_take htake))
  · rcases List.mem_cons.1 hrest with hpoint | hdrop
    · exact .inr hpoint
    · exact .inl (d.isDigit_digits c (List.mem_of_mem_drop hdrop))

theorem mem_positional {c : Char} (h : c ∈ d.positional) : c.isDigit = true ∨ c = '.' := by
  unfold positional at h
  dsimp only at h
  split at h
  next =>
    rcases List.mem_cons.1 h with rfl | hrest
    · exact .inl rfl
    · rcases List.mem_cons.1 hrest with hpoint | hfraction
      · exact .inr hpoint
      · rcases List.mem_append.1 hfraction with hzero | hdigit
        · exact .inl (isDigit_replicate _ c hzero)
        · exact .inl (d.isDigit_digits c hdigit)
  next =>
    split at h
    next => exact mem_split h
    next =>
      rcases List.mem_append.1 h with hdigit | hzero
      · exact .inl (d.isDigit_digits c hdigit)
      · exact .inl (isDigit_replicate _ c hzero)

def leading (d : Decimal) : List Char :=
  d.digits.take 1 ++ if (d.digits.drop 1).isEmpty then [] else '.' :: d.digits.drop 1

def power (d : Decimal) : List Char :=
  (if d.pointPosition - 1 < 0 then '-' else '+') :: Nat.toDigits 10 (d.pointPosition - 1).natAbs

def scientific (d : Decimal) : List Char := d.leading ++ 'e' :: d.power

theorem power_eq (d : Decimal) :
    ∃ sign digits, d.power = sign :: digits ∧ (sign = '+' ∨ sign = '-') ∧ digits ≠ [] ∧
      ∀ c ∈ digits, c.isDigit = true := by
  refine ⟨_, _, rfl, ?_, Nat.toDigits_ne_nil, fun c hc => Nat.isDigit_of_mem_toDigits (by decide) (by decide) hc⟩
  split
  · exact .inr rfl
  · exact .inl rfl

theorem mem_leading {c : Char} (h : c ∈ d.leading) : c.isDigit = true ∨ c = '.' := by
  unfold leading at h
  split at h
  next =>
    rw [List.append_nil] at h
    exact .inl (d.isDigit_digits c (List.mem_of_mem_take h))
  next => exact mem_split h

theorem not_mem_leading (d : Decimal) : 'e' ∉ d.leading :=
  fun hmem => absurd (mem_leading hmem) (by decide)

private theorem signExponent_append {front exponent : List Char} (hfront : 'e' ∉ front) :
    Number.signExponent (front ++ 'e' :: exponent) =
      front ++ 'e' :: if exponent.head? = some '-' then exponent else '+' :: exponent := by
  have hall : ∀ c ∈ front, (c != 'e') = true := fun c hc => bne_iff_ne.2 fun heq => hfront (heq ▸ hc)
  rw [Number.signExponent, List.dropWhile_append_of_pos hall, List.takeWhile_append_of_pos hall,
    List.dropWhile_cons_of_neg (by decide), List.takeWhile_cons_of_neg (by decide), List.append_nil]
  split
  next h => cases h
  next rest h =>
    cases h
    rw [List.head?_cons, if_pos rfl]
  next hplain h =>
    cases h
    rw [if_neg]
    intro hminus
    obtain ⟨rest, rfl⟩ := List.head?_eq_some_iff.1 hminus
    exact hplain rest rfl

/-- Of the exponents that are written without a sign none is negative. -/
theorem signExponent_exponential (d : Decimal) {sign : List Char} (hsign : 'e' ∉ sign) :
    Number.signExponent (sign ++ d.exponential) = sign ++ d.scientific := by
  have hfront : 'e' ∉ sign ++ d.leading := List.not_mem_append hsign d.not_mem_leading
  have hexponential : d.exponential = d.leading ++ 'e' :: ((if d.pointPosition - 1 < 0 then ['-'] else []) ++
      Nat.toDigits 10 (d.pointPosition - 1).natAbs) := rfl
  rw [hexponential, ← List.append_assoc, signExponent_append hfront, scientific, power, List.append_assoc]
  by_cases hneg : d.pointPosition - 1 < 0
  · simp [hneg]
  · have hdigit : (Nat.toDigits 10 (d.pointPosition - 1).natAbs).head? ≠ some '-' := by
      intro hhead
      have hmem := Nat.isDigit_of_mem_toDigits (by decide) (by decide) (List.mem_of_head? hhead)
      cases hmem
    simp [hneg, hdigit]

private theorem fixed?_leading (d : Decimal) :
    fixed? d.leading = some (d.coefficient / 10 ^ (d.digits.length - 1) : ℚ) := by
  unfold leading
  rcases Nat.lt_or_ge 1 d.digits.length with hmore | hone
  · have hdrop : ¬(d.digits.drop 1).isEmpty = true := by
      rw [List.isEmpty_iff, List.drop_eq_nil_iff]
      omega
    rw [if_neg hdrop]
    exact fixed?_split Nat.one_pos hmore
  · have hdrop : d.digits.drop 1 = [] := List.drop_eq_nil_iff.2 hone
    rw [hdrop, List.isEmpty_nil, if_pos rfl, List.append_nil, List.take_of_length_le hone,
      fixed?_whole d.digits_ne_nil d.isDigit_digits, ofDigitChars_digits, Nat.sub_eq_zero_of_le hone, pow_zero, div_one]

private theorem exponent?_power (d : Decimal) : exponent? d.power = some (d.pointPosition - 1) := by
  unfold power
  split
  next hneg =>
    have hvalue : -((d.pointPosition - 1).natAbs : Int) = d.pointPosition - 1 := by omega
    rw [exponent?, Text.digits?_toDigits]
    exact congrArg some hvalue
  next hpos =>
    have hvalue : ((d.pointPosition - 1).natAbs : Int) = d.pointPosition - 1 := by omega
    rw [exponent?, Text.digits?_toDigits]
    exact congrArg some hvalue

theorem magnitude?_positional (d : Decimal) : magnitude? d.positional = some d.value := by
  have hmark : 'e' ∉ d.positional := by
    intro hmem
    exact absurd (mem_positional hmem) (by decide)
  rw [magnitude?, after?_of_not_mem hmark]
  exact d.fixed?_positional

theorem magnitude?_scientific (d : Decimal) : magnitude? d.scientific = some d.value := by
  have hlength : 0 < d.digits.length := List.length_pos_iff.2 d.digits_ne_nil
  have hexponent : d.exponent = d.pointPosition - 1 - (d.digits.length - 1 : Nat) := by
    have hpoint : d.pointPosition = d.exponent + d.digits.length := rfl
    omega
  rw [scientific, magnitude?, after?_append d.not_mem_leading, before_append d.not_mem_leading]
  dsimp only
  rw [fixed?_leading, exponent?_power, value, hexponent, zpow_sub₀ (by norm_num), zpow_natCast]
  refine congrArg some ?_
  rw [div_mul_eq_mul_div, mul_div_assoc]

end Decimal
end PixelCode
