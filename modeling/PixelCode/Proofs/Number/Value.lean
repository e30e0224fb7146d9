import PixelCode.Proofs.Number.Layout

/-! The exact value of a double. A double holds a value in one form only, and doubles are compared by value. -/
namespace PixelCode

open Float.Model Float.Model.UnpackedFloat

namespace Binary

def absValue (b : Binary) : ℚ := b.mantissa * 2 ^ b.exponent

def value (b : Binary) : ℚ := if b.negative then -b.absValue else b.absValue

theorem absValue_nonneg (b : Binary) : 0 ≤ b.absValue := by
  unfold absValue
  positivity

theorem absValue_pos {b : Binary} (h : b.mantissa ≠ 0) : 0 < b.absValue := by
  have hm : 0 < b.mantissa := Nat.pos_of_ne_zero h
  unfold absValue
  positivity

theorem abs_value (b : Binary) : |b.value| = b.absValue := by
  unfold value
  split
  · rw [abs_neg, abs_of_nonneg b.absValue_nonneg]
  · rw [abs_of_nonneg b.absValue_nonneg]

theorem value_eq_zero_iff {b : Binary} : b.value = 0 ↔ b.mantissa = 0 := by
  have hunit : (2 : ℚ) ^ b.exponent ≠ 0 := by positivity
  rw [← abs_eq_zero, abs_value, absValue, mul_eq_zero, or_iff_left hunit, Nat.cast_eq_zero]

end Binary

section Units
variable {m n : Nat} {e f : Int}

/-- A number in two units is so many of the smaller one. -/
theorem mul_two_zpow (n : Nat) (h : e ≤ f) : (n : ℚ) * 2 ^ f = (n * 2 ^ (f - e).toNat : Nat) * 2 ^ e := by
  have hsplit : f = ((f - e).toNat : Int) + e := by omega
  conv_lhs => rw [hsplit]
  rw [zpow_add₀ two_ne_zero, zpow_natCast]
  push_cast
  ring

theorem eq_mul_two_pow (h : e ≤ f) : (m : ℚ) * 2 ^ e = n * 2 ^ f ↔ m = n * 2 ^ (f - e).toNat := by
  rw [mul_two_zpow n h, mul_left_inj' (by positivity), Nat.cast_inj]

end Units

namespace Binary
variable {a b : Binary}

/-- Of two canonical numbers the one with the greater exponent is the greater one. -/
theorem absValue_lt_of_exponent_lt (ha : a.Canonical) (hb : b.Canonical) (h : a.exponent < b.exponent) :
    a.absValue < b.absValue := by
  have hfull : 2 ^ 52 ≤ b.mantissa := by
    have := ha.le_exponent
    exact hb.full_or_least.resolve_right (by omega)
  have hunit : 2 * 2 ^ 52 ≤ b.mantissa * 2 ^ (b.exponent - a.exponent).toNat := by
    have htwo : 2 ^ 1 ≤ 2 ^ (b.exponent - a.exponent).toNat := Nat.pow_le_pow_right (by decide) (by omega)
    rw [mul_comm 2]
    exact Nat.mul_le_mul hfull htwo
  have hlt := ha.mantissa_lt
  unfold absValue
  rw [mul_two_zpow b.mantissa h.le]
  gcongr
  omega

theorem absValue_lt_iff_of_exponent_eq (h : a.exponent = b.exponent) :
    a.absValue < b.absValue ↔ a.mantissa < b.mantissa := by
  rw [absValue, absValue, h, mul_lt_mul_iff_left₀ (by positivity), Nat.cast_lt]

/-- A double holds a number in one form only. -/
theorem Canonical.ext (ha : a.Canonical) (hb : b.Canonical) (hsign : a.negative = b.negative)
    (habs : a.absValue = b.absValue) : a = b := by
  have hexponent : a.exponent = b.exponent := by
    rcases lt_trichotomy a.exponent b.exponent with h | h | h
    · exact absurd habs (absValue_lt_of_exponent_lt ha hb h).ne
    · exact h
    · exact absurd habs (absValue_lt_of_exponent_lt hb ha h).ne'
  have hmantissa : a.mantissa = b.mantissa := by
    rw [absValue, absValue, hexponent, mul_left_inj' (by positivity), Nat.cast_inj] at habs
    exact habs
  cases a
  cases b
  simp_all

end Binary

section Order

private theorem compare_absValue {a b : Binary} (ha : a.Canonical) (hb : b.Canonical) :
    (compare a.exponent b.exponent).then (compare a.mantissa b.mantissa) = compare a.absValue b.absValue := by
  rcases lt_trichotomy a.exponent b.exponent with h | h | h
  · rw [compare_lt_iff_lt.2 h, compare_lt_iff_lt.2 (Binary.absValue_lt_of_exponent_lt ha hb h)]
    rfl
  · rw [compare_eq_iff_eq.2 h, Ordering.eq_then]
    rcases lt_trichotomy a.mantissa b.mantissa with hm | hm | hm
    · rw [compare_lt_iff_lt.2 hm, compare_lt_iff_lt.2 ((Binary.absValue_lt_iff_of_exponent_eq h).2 hm)]
    · rw [compare_eq_iff_eq.2 hm, compare_eq_iff_eq.2 (by rw [Binary.absValue, Binary.absValue, h, hm])]
    · rw [compare_gt_iff_gt.2 hm, compare_gt_iff_gt.2 ((Binary.absValue_lt_iff_of_exponent_eq h.symm).2 hm)]
  · rw [compare_gt_iff_gt.2 h, compare_gt_iff_gt.2 (Binary.absValue_lt_of_exponent_lt hb ha h)]
    rfl

private theorem compare_neg_neg (x y : ℚ) : compare (-x) (-y) = (compare x y).swap := by
  rcases lt_trichotomy x y with h | h | h
  · rw [compare_lt_iff_lt.2 h, compare_gt_iff_gt.2 (neg_lt_neg h)]
    rfl
  · rw [compare_eq_iff_eq.2 h, compare_eq_iff_eq.2 (congrArg Neg.neg h)]
    rfl
  · rw [compare_gt_iff_gt.2 h, compare_lt_iff_lt.2 (neg_lt_neg h)]
    rfl

/-- Doubles that are numbers are compared by value. -/
theorem compare_unpack {x y : Float} {a b : Binary} (hx : Reading.ofFloat x = .finite a)
    (hy : Reading.ofFloat y = .finite b) :
    x.toModel.unpack.compare y.toModel.unpack = some (compare a.value b.value) := by
  have ha := canonical_of_ofFloat hx
  have hb := canonical_of_ofFloat hy
  obtain ⟨s, hu, rfl⟩ | ⟨s, m, e, hm, hu, rfl⟩ := unpack_of_ofFloat hx
  · obtain ⟨t, hv, rfl⟩ | ⟨t, n, f, hn, hv, rfl⟩ := unpack_of_ofFloat hy
    · rw [hu, hv, Binary.value_eq_zero_iff.2 rfl, Binary.value_eq_zero_iff.2 rfl]
      rfl
    · have hpos := Binary.absValue_pos (b := ⟨isMinus t, n, f⟩) hn.ne'
      rw [hu, hv, Binary.value_eq_zero_iff.2 rfl]
      cases t with
      | negative => exact congrArg some (compare_gt_iff_gt.2 (neg_lt_zero.2 hpos)).symm
      | positive => exact congrArg some (compare_lt_iff_lt.2 hpos).symm
  · have hpos := Binary.absValue_pos (b := ⟨isMinus s, m, e⟩) hm.ne'
    obtain ⟨t, hv, rfl⟩ | ⟨t, n, f, hn, hv, rfl⟩ := unpack_of_ofFloat hy
    · rw [hu, hv, (Binary.value_eq_zero_iff (b := ⟨isMinus t, 0, -1074⟩)).2 rfl]
      cases s with
      | negative => exact congrArg some (compare_lt_iff_lt.2 (neg_lt_zero.2 hpos)).symm
      | positive => exact congrArg some (compare_gt_iff_gt.2 hpos).symm
    · have hpos' := Binary.absValue_pos (b := ⟨isMinus t, n, f⟩) hn.ne'
      have habs := compare_absValue ha hb
      rw [hu, hv]
      cases s with
      | negative =>
        cases t with
        | negative => exact congrArg some ((congrArg Ordering.swap habs).trans (compare_neg_neg _ _).symm)
        | positive => exact congrArg some (compare_lt_iff_lt.2 ((neg_lt_zero.2 hpos).trans hpos')).symm
      | positive =>
        cases t with
        | negative => exact congrArg some (compare_gt_iff_gt.2 ((neg_lt_zero.2 hpos').trans hpos)).symm
        | positive => exact congrArg some habs

variable {x y : Float} {a b : Binary}

theorem lt_iff (hx : Reading.ofFloat x = .finite a) (hy : Reading.ofFloat y = .finite b) :
    x < y ↔ a.value < b.value := by
  change decide (x.toModel.unpack.lt y.toModel.unpack = true) = true ↔ _
  rw [decide_eq_true_iff, UnpackedFloat.lt, compare_unpack hx hy, ← compare_lt_iff_lt]
  exact beq_iff_eq.trans Option.some_inj

theorem le_iff (hx : Reading.ofFloat x = .finite a) (hy : Reading.ofFloat y = .finite b) :
    x ≤ y ↔ a.value ≤ b.value := by
  change decide (x.toModel.unpack.le y.toModel.unpack = true) = true ↔ _
  rw [decide_eq_true_iff, UnpackedFloat.le, compare_unpack hx hy, ← compare_le_iff_le]
  exact Ordering.ne_gt_iff_isLE.symm

private theorem beq_iff (hx : Reading.ofFloat x = .finite a) (hy : Reading.ofFloat y = .finite b) :
    (x == y) = true ↔ a.value = b.value := by
  change x.toModel.unpack.beq y.toModel.unpack = true ↔ _
  rw [UnpackedFloat.beq, compare_unpack hx hy, beq_iff_eq, Option.some_inj, compare_eq_iff_eq]

private theorem ofFloat_zero : Reading.ofFloat 0.0 = .finite ⟨false, 0, -1074⟩ := by decide

theorem lt_zero_iff (hx : Reading.ofFloat x = .finite a) : x < 0.0 ↔ a.value < 0 := by
  rw [lt_iff hx ofFloat_zero, (Binary.value_eq_zero_iff (b := ⟨false, 0, -1074⟩)).2 rfl]

theorem beq_zero_iff (hx : Reading.ofFloat x = .finite a) : (x == 0.0) = true ↔ a.mantissa = 0 := by
  rw [beq_iff hx ofFloat_zero, (Binary.value_eq_zero_iff (b := ⟨false, 0, -1074⟩)).2 rfl, Binary.value_eq_zero_iff]

end Order

end PixelCode
