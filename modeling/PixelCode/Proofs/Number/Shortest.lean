import PixelCode.Number.Decimal
import PixelCode.Proofs.Number.Value

/-! The shortest decimal of a double lies among the numbers that round to it. No number rounds to two doubles, so
different doubles have different shortest decimals. -/
namespace PixelCode

namespace Decimal

def value (d : Decimal) : ℚ := d.coefficient * 10 ^ d.exponent

private theorem value_trim (coefficient : Nat) (exponent : Int) :
    (trim coefficient exponent).value = coefficient * 10 ^ exponent := by
  fun_induction trim coefficient exponent with
  | case1 coefficient exponent h ih =>
    have hten : coefficient = coefficient / 10 * 10 := by omega
    rw [ih, zpow_add_one₀ (by norm_num)]
    conv_rhs => rw [hten]
    push_cast
    ring
  | case2 coefficient exponent h => rfl

private theorem coefficient_trim {coefficient : Nat} (h : coefficient ≠ 0) (exponent : Int) :
    (trim coefficient exponent).coefficient % 10 ≠ 0 := by
  fun_induction trim coefficient exponent with
  | case1 coefficient exponent hzero ih => exact ih (by omega)
  | case2 coefficient exponent hdigit => exact fun hzero => hdigit ⟨h, hzero⟩

end Decimal

namespace RoundingInterval
variable {r : RoundingInterval} {x : ℚ} {b c : Binary}

/-- The numbers between the two ends, and the ends themselves if the interval is closed. -/
def Covers (r : RoundingInterval) (x : ℚ) : Prop :=
  if r.closed then r.low * 2 ^ r.unit ≤ x ∧ x ≤ r.high * 2 ^ r.unit
  else r.low * 2 ^ r.unit < x ∧ x < r.high * 2 ^ r.unit

private theorem contains_iff {p q : Nat} (hq : 0 < q) (h : x * q = p * 2 ^ r.unit) :
    r.contains p q = true ↔ r.Covers x := by
  have hunit : (0 : ℚ) < 2 ^ r.unit := by positivity
  have hq' : (0 : ℚ) < q := Nat.cast_pos.2 hq
  have hx : x = p / q * 2 ^ r.unit := by
    rw [div_mul_eq_mul_div, ← h, mul_div_cancel_right₀ x hq'.ne']
  rw [contains, Covers, hx]
  cases r.closed with
  | true =>
    rw [if_pos rfl, if_pos rfl, mul_le_mul_iff_left₀ hunit, mul_le_mul_iff_left₀ hunit, le_div_iff₀ hq',
      div_le_iff₀ hq', Bool.and_eq_true, decide_eq_true_iff, decide_eq_true_iff]
    norm_cast
  | false =>
    rw [if_neg Bool.false_ne_true, if_neg Bool.false_ne_true, mul_lt_mul_iff_left₀ hunit, mul_lt_mul_iff_left₀ hunit,
      lt_div_iff₀ hq', div_lt_iff₀ hq', Bool.and_eq_true, decide_eq_true_iff, decide_eq_true_iff]
    norm_cast

private theorem zpow_mul_pow_neg {a : ℚ} (ha : a ≠ 0) (z : Int) :
    a ^ z * a ^ (-z).toNat = a ^ z.toNat := by
  rw [← zpow_natCast, ← zpow_natCast, ← zpow_add₀ ha]
  congr 1
  omega

/-- What is found on a grid is in the interval. -/
theorem covers_of_onGrid? {exponent : Int} {n : Nat} (h : r.onGrid? exponent = some n) :
    r.Covers (n * 10 ^ exponent) := by
  have hgrid (m : Nat) : r.contains (m * (10 ^ exponent.toNat * 2 ^ (-r.unit).toNat))
      (2 ^ r.unit.toNat * 10 ^ (-exponent).toNat) = true ↔ r.Covers (m * 10 ^ exponent) := by
    apply contains_iff (by positivity)
    push_cast
    rw [← zpow_mul_pow_neg (by norm_num : (2 : ℚ) ≠ 0) r.unit, ← zpow_mul_pow_neg (by norm_num : (10 : ℚ) ≠ 0) exponent]
    ring
  unfold onGrid? at h
  dsimp only at h
  split at h
  next hbelow habove =>
    split at h
    · cases h
      exact (hgrid _).1 hbelow
    · cases h
      exact (hgrid _).1 habove
  next hbelow _ =>
    cases h
    exact (hgrid _).1 hbelow
  next _ habove =>
    cases h
    exact (hgrid _).1 habove
  next => cases h

private theorem value_exact (r : RoundingInterval) :
    (Decimal.exact r).value = r.value * 2 ^ r.unit := by
  have hmin : min r.unit 0 = -((-r.unit).toNat : Int) := by omega
  have hten : (2 : ℚ) ^ (-r.unit).toNat * 5 ^ (-r.unit).toNat = 10 ^ (-r.unit).toNat := by
    rw [← mul_pow]
    norm_num
  rw [Decimal.exact, Decimal.value_trim, hmin, zpow_neg, zpow_natCast, Nat.cast_mul, Nat.cast_mul]
  change (r.value : ℚ) * (2 ^ r.unit.toNat : Nat) * (5 ^ (-r.unit).toNat : Nat) * _ = _
  rw [Nat.cast_pow, Nat.cast_pow, Nat.cast_ofNat, Nat.cast_ofNat, ← zpow_mul_pow_neg (by norm_num : (2 : ℚ) ≠ 0) r.unit,
    ← mul_assoc, mul_assoc _ (_ ^ _) (_ ^ _), hten, mul_inv_cancel_right₀ (by positivity)]

section OfBinary

private theorem low_lt_value (hb : b.mantissa ≠ 0) : (ofBinary b).low < (ofBinary b).value := by
  change 4 * b.mantissa - _ < 4 * b.mantissa
  split <;> omega

private theorem low_pos (hb : b.mantissa ≠ 0) : 0 < (ofBinary b).low := by
  change 0 < 4 * b.mantissa - _
  split <;> omega

private theorem value_lt_high (b : Binary) : (ofBinary b).value < (ofBinary b).high := by
  change 4 * b.mantissa < 4 * b.mantissa + 2
  omega

private theorem covers_of_lt (hlow : r.low * 2 ^ r.unit < x) (hhigh : x < r.high * 2 ^ r.unit) :
    r.Covers x := by
  unfold Covers
  split
  · exact ⟨hlow.le, hhigh.le⟩
  · exact ⟨hlow, hhigh⟩

private theorem le_of_covers (h : r.Covers x) :
    r.low * 2 ^ r.unit ≤ x ∧ x ≤ r.high * 2 ^ r.unit := by
  unfold Covers at h
  split at h
  · exact h
  · exact ⟨h.1.le, h.2.le⟩

/-- The interval of an odd mantissa is open. -/
theorem lt_of_covers (hodd : ¬b.mantissa % 2 = 0) (h : (ofBinary b).Covers x) :
    (ofBinary b).low * 2 ^ (ofBinary b).unit < x ∧ x < (ofBinary b).high * 2 ^ (ofBinary b).unit := by
  have hopen : ¬(ofBinary b).closed = true := by
    change ¬decide (b.mantissa % 2 = 0) = true
    rw [decide_eq_true_iff]
    exact hodd
  rw [Covers, if_neg hopen] at h
  exact h

private theorem covers_value (hb : b.mantissa ≠ 0) :
    (ofBinary b).Covers ((ofBinary b).value * 2 ^ (ofBinary b).unit) := by
  apply covers_of_lt
  · gcongr
    exact low_lt_value hb
  · gcongr
    exact value_lt_high b

theorem pos_of_covers (hb : b.mantissa ≠ 0) (h : (ofBinary b).Covers x) : 0 < x := by
  have hlow : (0 : ℚ) < (ofBinary b).low := Nat.cast_pos.2 (low_pos hb)
  refine lt_of_lt_of_le ?_ (le_of_covers h).1
  positivity

/-- The interval of a greater double begins where that of a smaller one ends, or later. Where they meet, one of the two
mantissas is odd. -/
theorem high_le_low (hb : b.Canonical) (hc : c.Canonical) (hle : b.exponent ≤ c.exponent)
    (h : b.absValue < c.absValue) :
    let low := (ofBinary c).low * 2 ^ (c.exponent - b.exponent).toNat
    (ofBinary b).high ≤ low ∧ (b.mantissa % 2 = 0 → c.mantissa % 2 = 0 → (ofBinary b).high < low) := by
  intro low
  have hhigh : (ofBinary b).high = 4 * b.mantissa + 2 := rfl
  have hlow : 4 * c.mantissa ≤ (ofBinary c).low + 2 := by
    change 4 * c.mantissa ≤ 4 * c.mantissa - _ + 2
    split <;> omega
  rcases hle.eq_or_lt with heq | hlt
  · -- Neighbours in the same unit are of different parity.
    have hmantissa := (Binary.absValue_lt_iff_of_exponent_eq heq).1 h
    have hsame : low = (ofBinary c).low := by
      have hzero : (c.exponent - b.exponent).toNat = 0 := by omega
      simp only [low, hzero, pow_zero, mul_one]
    omega
  · -- In a smaller unit only the greatest mantissa comes so near, and that one is odd.
    have hfull : 2 ^ 52 ≤ c.mantissa := by
      have := hb.le_exponent
      exact hc.full_or_least.resolve_right (by omega)
    have hlow' : 2 ^ 54 - 1 ≤ (ofBinary c).low := by
      change 2 ^ 54 - 1 ≤ 4 * c.mantissa - if c.mantissa = 2 ^ 52 ∧ -1074 < c.exponent then 1 else 2
      have := hb.le_exponent
      split <;> omega
    have htwo : 2 ^ 1 ≤ 2 ^ (c.exponent - b.exponent).toNat := Nat.pow_le_pow_right (by decide) (by omega)
    have hdouble : (2 ^ 54 - 1) * 2 ^ 1 ≤ low := Nat.mul_le_mul hlow' htwo
    have := hb.mantissa_lt
    omega

/-- No number rounds to two doubles. -/
theorem not_covers_of_lt (hb : b.Canonical) (hc : c.Canonical) (h : b.absValue < c.absValue)
    (hx : (ofBinary b).Covers x) :
    ¬(ofBinary c).Covers x := by
  intro hy
  have hle : b.exponent ≤ c.exponent := by
    by_contra hlt
    exact absurd h (Binary.absValue_lt_of_exponent_lt hc hb (not_le.1 hlt)).not_gt
  obtain ⟨hends, hmeet⟩ := high_le_low hb hc hle h
  have hunit : (0 : ℚ) < 2 ^ (ofBinary b).unit := by positivity
  have hlow : ((ofBinary c).low : ℚ) * 2 ^ (ofBinary c).unit =
      ((ofBinary c).low * 2 ^ (c.exponent - b.exponent).toNat : Nat) * 2 ^ (ofBinary b).unit := by
    have hsame : ((ofBinary c).unit - (ofBinary b).unit).toNat = (c.exponent - b.exponent).toNat := by
      change (c.exponent - 2 - (b.exponent - 2)).toNat = _
      omega
    rw [← hsame]
    exact mul_two_zpow _ (Int.sub_le_sub_right hle 2)
  have hcut : ((ofBinary b).high : ℚ) * 2 ^ (ofBinary b).unit ≤ (ofBinary c).low * 2 ^ (ofBinary c).unit := by
    rw [hlow]
    exact mul_le_mul_of_nonneg_right (Nat.cast_le.2 hends) hunit.le
  by_cases hevenb : b.mantissa % 2 = 0
  · by_cases hevenc : c.mantissa % 2 = 0
    · have hapart : ((ofBinary b).high : ℚ) * 2 ^ (ofBinary b).unit < (ofBinary c).low * 2 ^ (ofBinary c).unit := by
        rw [hlow]
        exact mul_lt_mul_of_pos_right (Nat.cast_lt.2 (hmeet hevenb hevenc)) hunit
      exact absurd ((le_of_covers hx).2.trans_lt hapart) (le_of_covers hy).1.not_gt
    · exact absurd ((le_of_covers hx).2.trans hcut) (lt_of_covers hevenc hy).1.not_ge
  · exact absurd ((lt_of_covers hevenb hx).2.trans_le hcut) (le_of_covers hy).1.not_gt

end OfBinary

end RoundingInterval

namespace Decimal
open RoundingInterval
variable {b : Binary}

private theorem covers_trim {n : Nat} {e : Int} (hb : b.mantissa ≠ 0)
    (h : (ofBinary b).Covers (n * 10 ^ e)) :
    (ofBinary b).Covers (trim n e).value ∧ (trim n e).coefficient % 10 ≠ 0 := by
  have hn : n ≠ 0 := by
    rintro rfl
    exact (pos_of_covers hb h).ne' (by rw [Nat.cast_zero, zero_mul])
  exact ⟨(value_trim n e).symm ▸ h, coefficient_trim hn e⟩

private theorem covers_shortestFrom (hb : b.mantissa ≠ 0) (exponent : Int) (tries : Nat) :
    (ofBinary b).Covers (shortestFrom (ofBinary b) exponent tries).value ∧
      (shortestFrom (ofBinary b) exponent tries).coefficient % 10 ≠ 0 := by
  induction tries generalizing exponent with
  | zero =>
    apply covers_trim hb
    rw [← value_trim]
    exact (value_exact _).symm ▸ covers_value hb
  | succ tries ih =>
    rw [shortestFrom]
    cases hgrid : (ofBinary b).onGrid? exponent with
    | some n => exact covers_trim hb (covers_of_onGrid? hgrid)
    | none => exact ih (exponent - 1)

/-- The shortest decimal rounds to the double, and does not end in a zero. -/
theorem covers_shortest (hb : b.mantissa ≠ 0) :
    (ofBinary b).Covers (shortest b).value ∧ (shortest b).coefficient % 10 ≠ 0 :=
  covers_shortestFrom hb _ _

/-- Different doubles have different shortest decimals. -/
theorem absValue_eq_of_shortest {c : Binary} (hb : b.Canonical) (hc : c.Canonical) (hb' : b.mantissa ≠ 0)
    (hc' : c.mantissa ≠ 0) (h : (shortest b).value = (shortest c).value) : b.absValue = c.absValue := by
  have hx := (covers_shortest hb').1
  have hy := (covers_shortest hc').1
  rw [h] at hx
  rcases lt_trichotomy b.absValue c.absValue with hlt | heq | hgt
  · exact absurd hy (not_covers_of_lt hb hc hlt hx)
  · exact heq
  · exact absurd hx (not_covers_of_lt hc hb hgt hy)

end Decimal
end PixelCode
