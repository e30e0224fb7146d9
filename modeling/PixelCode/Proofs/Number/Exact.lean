import PixelCode.Number.Arithmetic
import PixelCode.Proofs.Number.Value

/-! Operations on doubles that do not round: dropping the fraction, remainders, sums that a double holds, and the
conversion of natural numbers. -/
namespace PixelCode

open Float.Model Float.Model.UnpackedFloat

namespace Binary
variable {b : Binary}

/-- A mantissa that is shifted as far as the double allows is full, or the exponent is the least one. -/
theorem full_or_least_shift (hm : b.mantissa ≠ 0) (hlt : b.mantissa < 2 ^ 53) :
    let shift := min (52 - b.mantissa.log2) (b.exponent + 1074).toNat
    b.mantissa * 2 ^ shift < 2 ^ 53 ∧ (2 ^ 52 ≤ b.mantissa * 2 ^ shift ∨ shift = (b.exponent + 1074).toNat) := by
  intro shift
  have hlog : b.mantissa.log2 < 53 := (Nat.log2_lt hm).2 hlt
  have hshift : b.mantissa.log2 + shift ≤ 52 := by omega
  constructor
  · calc
      b.mantissa * 2 ^ shift < 2 ^ (b.mantissa.log2 + 1) * 2 ^ shift :=
        Nat.mul_lt_mul_of_pos_right Nat.lt_log2_self (by positivity)
      _ = 2 ^ (b.mantissa.log2 + 1 + shift) := (pow_add _ _ _).symm
      _ ≤ 2 ^ 53 := Nat.pow_le_pow_right (by decide) (by omega)
  · by_cases hfull : shift = 52 - b.mantissa.log2
    · left
      calc
        2 ^ 52 = 2 ^ (b.mantissa.log2 + shift) := by congr 1; omega
        _ = 2 ^ b.mantissa.log2 * 2 ^ shift := pow_add _ _ _
        _ ≤ b.mantissa * 2 ^ shift := Nat.mul_le_mul_right _ (Nat.log2_self_le hm)
    · right
      omega

private theorem absValue_shift (negative : Bool) (m k : Nat) (e : Int) :
    absValue ⟨negative, m * 2 ^ k, e - k⟩ = m * 2 ^ e := by
  have hk : (e - (e - k)).toNat = k := by omega
  rw [mul_two_zpow m (Int.sub_le_self e (Int.natCast_nonneg k)), hk]
  rfl

/-- A sign in front of the other 63 bits. -/
private theorem ofBits_withSign (negative : Bool) (k scale fraction : Nat) (hscale : scale < 2 ^ 11)
    (hfraction : fraction < 2 ^ 52) (hk : k = scale * 2 ^ 52 + fraction) :
    Reading.ofBits (.ofNat (if negative then signBit + k else k)) = .ofFields negative scale fraction := by
  have hlt : (if negative then signBit + k else k) < 2 ^ 64 := by
    simp only [signBit]
    split <;> omega
  apply Reading.ofBits_of_toNat hscale hfraction
  rw [UInt64.toNat_ofNat_of_lt' hlt, hk]
  cases negative
  · rw [Bool.toNat_false, Nat.zero_mul, Nat.zero_add]
    rfl
  · rw [Bool.toNat_true, Nat.one_mul, Nat.add_assoc]
    rfl

/-- The bits of a number that a double can hold are read as the number. -/
theorem ofBits_toBits (hlt : b.mantissa < 2 ^ 53) (hleast : -1074 ≤ b.exponent) (hgreatest : b.exponent ≤ 971) :
    ∃ c, Reading.ofBits b.toBits = .finite c ∧ c.negative = b.negative ∧ c.absValue = b.absValue := by
  obtain ⟨negative, m, e⟩ := b
  dsimp only at hlt hleast hgreatest ⊢
  by_cases hm : m = 0
  · subst hm
    refine ⟨⟨negative, 0, -1074⟩, ?_, rfl, ?_⟩
    · have hbits : toBits ⟨negative, 0, e⟩ = .ofNat (if negative then signBit + 0 else 0) := by
        simp [toBits, leadingBit]
      rw [hbits, ofBits_withSign negative 0 0 0 (by decide) (by decide) rfl]
      rfl
    · rw [absValue, absValue, Nat.cast_zero, zero_mul, zero_mul]
  · obtain ⟨hbound, hform⟩ := full_or_least_shift (b := ⟨negative, m, e⟩) hm hlt
    dsimp only at hbound hform
    generalize hshift : min (52 - m.log2) (e + 1074).toNat = shift at hbound hform
    have hbits : toBits ⟨negative, m, e⟩ =
        let k := if m * 2 ^ shift < 2 ^ 52 then m * 2 ^ shift
          else (e - shift + 1075).toNat * 2 ^ 52 + (m * 2 ^ shift - 2 ^ 52)
        .ofNat (if negative then signBit + k else k) := by
      rw [← hshift]
      rfl
    by_cases hfull : 2 ^ 52 ≤ m * 2 ^ shift
    · refine ⟨⟨negative, m * 2 ^ shift, e - shift⟩, ?_, rfl, absValue_shift negative m shift e⟩
      have hmantissa : 2 ^ 52 + (m * 2 ^ shift - 2 ^ 52) = m * 2 ^ shift := by omega
      have hexponent : ((e - shift + 1075).toNat : Int) - 1075 = e - shift := by omega
      rw [hbits, if_neg (Nat.not_lt.2 hfull)]
      dsimp only
      rw [ofBits_withSign negative _ (e - shift + 1075).toNat (m * 2 ^ shift - 2 ^ 52) (by omega) (by omega) rfl,
        Reading.ofFields, if_neg (by omega), if_neg (by omega), hmantissa, hexponent]
    · refine ⟨⟨negative, m * 2 ^ shift, -1074⟩, ?_, rfl, ?_⟩
      · rw [hbits, if_pos (Nat.not_le.1 hfull)]
        dsimp only
        rw [ofBits_withSign negative _ 0 (m * 2 ^ shift) (by decide) (by omega) (by omega)]
        rfl
      · have hleast' : e - shift = -1074 := by omega
        rw [← hleast']
        exact absValue_shift negative m shift e

private theorem absValue_truncated (b : Binary) : b.truncated.absValue = ⌊b.absValue⌋₊ := by
  obtain ⟨negative, m, e⟩ := b
  rcases le_total 0 e with h | h
  · -- The unit is a whole number, and so is the value.
    have hone : denominator ⟨negative, m, e⟩ = 1 := by
      have hzero : (-e).toNat = 0 := by omega
      simp only [denominator, hzero]
    have hwhole : absValue ⟨negative, m, e⟩ = (m * 2 ^ (e - 0).toNat : Nat) * 2 ^ (0 : Int) := mul_two_zpow m h
    rw [truncated, hone, Nat.div_one, Nat.mul_one, hwhole, zpow_zero, mul_one, Nat.floor_natCast]
  · have hunits (n : Nat) : (n * denominator ⟨negative, m, e⟩ : Nat) * (2 : ℚ) ^ e = n := by
      have hsplit := mul_two_zpow n h
      rw [zpow_zero, mul_one, zero_sub] at hsplit
      exact hsplit.symm
    have hquotient : absValue ⟨negative, m, e⟩ = m / (denominator ⟨negative, m, e⟩ : Nat) := by
      have hone := hunits 1
      rw [one_mul, Nat.cast_one] at hone
      rw [absValue, eq_div_iff (left_ne_zero_of_mul_eq_one hone), mul_assoc, mul_comm _ (denominator _ : ℚ), hone,
        mul_one]
    rw [hquotient, Nat.floor_div_eq_div]
    exact hunits _

variable {a : Binary}

/-- A remainder is that of two natural numbers, in a unit of both. -/
theorem remainder_in_unit (a b : Binary) :
    ∃ (unit : Int) (dividend divisor : Nat), a.absValue = dividend * 2 ^ unit ∧ b.absValue = divisor * 2 ^ unit ∧
      (a.remainder b).absValue = (dividend % divisor : Nat) * 2 ^ unit :=
  ⟨min a.exponent b.exponent, _, _, mul_two_zpow a.mantissa (min_le_left _ _),
    mul_two_zpow b.mantissa (min_le_right _ _), rfl⟩

/-- The remainder is less than the divisor, and what a multiple of the divisor leaves. -/
theorem absValue_remainder (hb : b.mantissa ≠ 0) :
    (a.remainder b).absValue < b.absValue ∧
      ∃ n : ℕ, a.absValue = n * b.absValue + (a.remainder b).absValue := by
  obtain ⟨unit, dividend, divisor, hdividend, hdivisor, hremainder⟩ := remainder_in_unit a b
  have hunit : (0 : ℚ) < 2 ^ unit := by positivity
  have hpos : 0 < divisor := by
    have habs := absValue_pos hb
    rw [hdivisor] at habs
    exact Nat.cast_pos.1 (pos_of_mul_pos_left habs hunit.le)
  rw [hdividend, hdivisor, hremainder]
  constructor
  · exact mul_lt_mul_of_pos_right (Nat.cast_lt.2 (Nat.mod_lt _ hpos)) hunit
  · refine ⟨dividend / divisor, ?_⟩
    rw [← mul_assoc, ← Nat.cast_mul, ← add_mul, ← Nat.cast_add, Nat.div_add_mod']

/-- In the smaller of the two units one of the two numbers is its own mantissa. -/
theorem mantissa_remainder_lt (ha : a.mantissa < 2 ^ 53) (hb : b.mantissa < 2 ^ 53) (hne : b.mantissa ≠ 0) :
    (a.remainder b).mantissa < 2 ^ 53 := by
  rcases le_total a.exponent b.exponent with h | h
  · have hunit : (a.exponent - min a.exponent b.exponent).toNat = 0 := by omega
    calc
      (a.remainder b).mantissa ≤ a.mantissa * 2 ^ (a.exponent - min a.exponent b.exponent).toNat := Nat.mod_le _ _
      _ = a.mantissa := by rw [hunit, pow_zero, mul_one]
      _ < 2 ^ 53 := ha
  · have hunit : (b.exponent - min a.exponent b.exponent).toNat = 0 := by omega
    calc
      (a.remainder b).mantissa < b.mantissa * 2 ^ (b.exponent - min a.exponent b.exponent).toNat :=
        Nat.mod_lt _ (Nat.mul_pos (Nat.pos_of_ne_zero hne) (Nat.two_pow_pos _))
      _ = b.mantissa := by rw [hunit, pow_zero, mul_one]
      _ < 2 ^ 53 := hb

end Binary

section Rounding
variable {b : Binary}

private theorem targetExponent_eq (t : Int) :
    Format.targetExponent .binary64 t = max (t - 53) (-1074) := rfl

/-- Zeros are shifted out without a trace. -/
theorem shiftRight_zeros (m k : Nat) : ExtendedMantissa.mk (m * 2 ^ k) false false >>> k = ⟨m, false, false⟩ := by
  induction k generalizing m with
  | zero =>
    rw [pow_zero, mul_one]
    rfl
  | succ k ih =>
    have hshift : ExtendedMantissa.mk (m * 2 ^ (k + 1)) false false >>> (k + 1) =
        (ExtendedMantissa.mk (m * 2 * 2 ^ k) false false >>> k).shiftRightOne := by
      rw [pow_succ', ← mul_assoc]
      rfl
    rw [hshift, ih, ExtendedMantissa.shiftRightOne]
    simp

private theorem totalExponent_shift {m : Nat} (hm : m ≠ 0) (k : Nat) (e : Int) :
    totalExponent (m * 2 ^ k) (e - k) = totalExponent m e := by
  have hlog : (m * 2 ^ k).log2 = m.log2 + k := by
    induction k with
    | zero => rw [pow_zero, mul_one, Nat.add_zero]
    | succ k ih =>
      rw [pow_succ', Nat.mul_left_comm, Nat.log2_two_mul (by positivity), ih]
      rfl
  rw [totalExponent, totalExponent, hlog]
  omega

private theorem targetExponent_of_canonical (hb : b.Canonical) (hne : b.mantissa ≠ 0) :
    Format.targetExponent .binary64 (totalExponent b.mantissa b.exponent) = b.exponent := by
  obtain ⟨hlt, hleast, -, hform⟩ := hb
  have hlog : b.mantissa.log2 < 53 := (Nat.log2_lt hne).2 hlt
  rw [targetExponent_eq, totalExponent]
  rcases hform with hfull | hform
  · have hlog' : 52 ≤ b.mantissa.log2 := (Nat.le_log2 hne).2 hfull
    omega
  · omega

/-- A number that a double holds, in a smaller unit, is not changed by rounding. -/
theorem roundWithAccuracy_shift (s : Sign) (hb : b.Canonical) (hne : b.mantissa ≠ 0) (k : Nat) :
    roundWithAccuracy .binary64 s (b.mantissa * 2 ^ k) (b.exponent - k) .exact =
      .finite s b.mantissa b.exponent (Nat.pos_of_ne_zero hne) := by
  have hshift (k : Nat) : shiftToTargetExponent .binary64 (b.mantissa * 2 ^ k) (b.exponent - k) .exact =
      (⟨b.mantissa, false, false⟩, b.exponent) := by
    have hk : (b.exponent - (b.exponent - k)).toNat = k := by omega
    rw [shiftToTargetExponent, totalExponent_shift hne, targetExponent_of_canonical hb hne, shiftToExponent, hk]
    refine Prod.ext (shiftRight_zeros _ k) ?_
    change b.exponent - k + k = b.exponent
    omega
  have hagain : shiftToTargetExponent .binary64 b.mantissa b.exponent .exact =
      (⟨b.mantissa, false, false⟩, b.exponent) := by
    have hzero := hshift 0
    rw [pow_zero, mul_one, Nat.cast_zero, sub_zero] at hzero
    exact hzero
  have hrounded : (ExtendedMantissa.mk b.mantissa false false).roundedMantissa = b.mantissa := rfl
  rw [roundWithAccuracy, hshift]
  simp only [hrounded, hagain]
  exact dif_neg hne

/-- A number that a double holds is not changed by rounding, in whatever unit it is given. -/
theorem round_exact (s : Sign) {m : Nat} {e : Int} (hb : b.Canonical) (hne : b.mantissa ≠ 0)
    (h : (m : ℚ) * 2 ^ e = b.absValue) :
    UnpackedFloat.round .binary64 s m e = .finite s b.mantissa b.exponent (Nat.pos_of_ne_zero hne) := by
  rcases le_total e b.exponent with hle | hle
  · obtain ⟨k, hk⟩ := Int.le.dest hle
    obtain rfl : e = b.exponent - k := by omega
    have hunit : (b.exponent - (b.exponent - k)).toNat = k := by omega
    have hzero : (b.exponent - k - b.exponent).toNat = 0 := by omega
    have hm := (eq_mul_two_pow hle).1 h
    rw [hunit] at hm
    rw [hm, UnpackedFloat.round, totalExponent_shift hne, targetExponent_of_canonical hb hne, decreaseExponent, hzero,
      Nat.shiftLeft_zero, Nat.cast_zero, sub_zero]
    exact roundWithAccuracy_shift s hb hne k
  · obtain ⟨k, hk⟩ := Int.le.dest hle
    obtain rfl : e = b.exponent + k := hk.symm
    have hunit : (b.exponent + k - b.exponent).toNat = k := by omega
    have hm := (eq_mul_two_pow hle).1 h.symm
    rw [hunit] at hm
    have hne' : m ≠ 0 := by
      rintro rfl
      exact hne (hm.trans (Nat.zero_mul _))
    have htotal : totalExponent m (b.exponent + k) = totalExponent b.mantissa b.exponent := by
      rw [← totalExponent_shift hne' k, ← hm, add_sub_cancel_right]
    have hexact := roundWithAccuracy_shift s hb hne 0
    rw [pow_zero, mul_one, Nat.cast_zero, sub_zero] at hexact
    rw [UnpackedFloat.round, htotal, targetExponent_of_canonical hb hne, decreaseExponent, hunit, Nat.shiftLeft_eq,
      ← hm, add_sub_cancel_right]
    exact hexact

def signOf : Bool → Sign
  | true => .negative
  | false => .positive

private theorem isMinus_signOf (negative : Bool) : isMinus (signOf negative) = negative := by
  cases negative <;> rfl

private theorem normalize_exact (zeroSign : Sign) {m e : Int} (hb : b.Canonical)
    (hne : b.mantissa ≠ 0) (h : (m : ℚ) * 2 ^ e = b.value) :
    UnpackedFloat.normalize .binary64 m e zeroSign =
      .finite (signOf b.negative) b.mantissa b.exponent (Nat.pos_of_ne_zero hne) := by
  have hunit : (0 : ℚ) < 2 ^ e := by positivity
  have hpos := Binary.absValue_pos hne
  rw [Binary.value] at h
  cases hsign : b.negative with
  | false =>
    rw [hsign, if_neg Bool.false_ne_true] at h
    have hm : 0 < m := by
      rw [← h] at hpos
      exact Int.cast_pos.1 (pos_of_mul_pos_left hpos hunit.le)
    have hcast : ((m.toNat : Nat) : ℚ) = m := by exact_mod_cast Int.toNat_of_nonneg hm.le
    rw [UnpackedFloat.normalize, compare_gt_iff_gt.2 hm]
    exact round_exact .positive hb hne (by rw [hcast, h])
  | true =>
    rw [hsign, if_pos rfl] at h
    have hm : m < 0 := by
      have hneg : (m : ℚ) * 2 ^ e < 0 := by rw [h]; exact neg_lt_zero.2 hpos
      exact Int.cast_lt_zero.1 (neg_of_mul_neg_left hneg hunit.le)
    have hcast : (((-m).toNat : Nat) : ℚ) = -m := by exact_mod_cast Int.toNat_of_nonneg (neg_pos.2 hm).le
    rw [UnpackedFloat.normalize, compare_lt_iff_lt.2 hm]
    exact round_exact .negative hb hne (by rw [hcast, neg_mul, h, neg_neg])

/-- A mantissa in a smaller unit. -/
theorem apply_shiftLeft (s : Sign) (m : Nat) {e f : Int} (h : e ≤ f) :
    ((s.apply (m <<< (f - e).toNat : Nat) : Int) : ℚ) * 2 ^ e = Binary.value ⟨isMinus s, m, f⟩ := by
  have hm : ((m <<< (f - e).toNat : Nat) : ℚ) * 2 ^ e = m * 2 ^ f := by
    rw [mul_two_zpow m h, Nat.shiftLeft_eq]
  cases s with
  | negative =>
    rw [Sign.apply, Int.cast_neg, Int.cast_natCast, neg_mul, hm]
    rfl
  | positive =>
    rw [Sign.apply, Int.cast_natCast, hm]
    rfl

/-- A sum that a double holds is exact. -/
theorem ofFloat_add {x y : Float} {a b c : Binary} (hx : Reading.ofFloat x = .finite a)
    (hy : Reading.ofFloat y = .finite b) (ha : a.mantissa ≠ 0) (hb : b.mantissa ≠ 0) (hc : c.Canonical)
    (hne : c.mantissa ≠ 0) (hsum : c.value = a.value + b.value) : Reading.ofFloat (x + y) = .finite c := by
  obtain ⟨s, hu, rfl⟩ | ⟨s, m, e, hm, hu, rfl⟩ := unpack_of_ofFloat hx
  · exact absurd rfl ha
  · obtain ⟨t, hv, rfl⟩ | ⟨t, n, f, hn, hv, rfl⟩ := unpack_of_ofFloat hy
    · exact absurd rfl hb
    · have hadd : UnpackedFloat.add .binary64 x.toModel.unpack y.toModel.unpack =
          .finite (signOf c.negative) c.mantissa c.exponent (Nat.pos_of_ne_zero hne) := by
        rw [hu, hv]
        apply normalize_exact .positive hc hne
        rw [hsum, Int.cast_add, add_mul, apply_shiftLeft s m (min_le_left e f), apply_shiftLeft t n (min_le_right e f)]
      have hread : Reading.ofUnpacked (UnpackedFloat.add .binary64 x.toModel.unpack y.toModel.unpack) = .finite c := by
        rw [hadd, Reading.ofUnpacked, isMinus_signOf]
      refine (ofFloat_pack fun b' hb' => ?_).trans hread
      cases hread.symm.trans hb'
      exact hc

/-- A whole number is not changed by dropping the fraction, in whatever unit it is given. -/
theorem roundToInt_exact (s : Sign) {m n : Nat} {e : Int} (h : (m : ℚ) * 2 ^ e = n) : roundToInt s m e = s.apply n := by
  have hround : roundToInt s m e =
      s.apply (ExtendedMantissa.mk (m <<< (e - 0).toNat) false false >>>
        (0 - (e - (e - 0).toNat)).toNat).mantissa := rfl
  have hone : (n : ℚ) = n * 2 ^ (0 : Int) := by rw [zpow_zero, mul_one]
  rw [hone] at h
  rw [hround]
  rcases le_total 0 e with he | he
  · have hn := (eq_mul_two_pow he).1 h.symm
    have hzero : (0 - (e - (e - 0).toNat)).toNat = 0 := by omega
    rw [hzero, Nat.shiftLeft_eq, ← hn]
    rfl
  · have hm := (eq_mul_two_pow he).1 h
    have hzero : (e - 0).toNat = 0 := by omega
    rw [hzero, Nat.shiftLeft_zero, Nat.cast_zero, sub_zero, hm, shiftRight_zeros]

/-- A natural number in a double is converted as it is. -/
theorem toUInt32_of_value {x : Float} {a : Binary} {n : Nat} (hx : Reading.ofFloat x = .finite a) (ha : a.value = n)
    (hn : n < UInt32.size) : x.toUInt32.toNat = n := by
  have hint : x.toModel.unpack.toInt 0 (UInt32.size - 1) = n := by
    obtain ⟨s, hu, rfl⟩ | ⟨s, m, e, hm, hu, rfl⟩ := unpack_of_ofFloat hx
    · rw [Binary.value_eq_zero_iff.2 rfl] at ha
      obtain rfl : n = 0 := Nat.cast_eq_zero.1 ha.symm
      rw [hu]
      rfl
    · rw [hu]
      cases s with
      | negative =>
        have hpos := Binary.absValue_pos (b := ⟨true, m, e⟩) hm.ne'
        have hnonneg : 0 ≤ Binary.value ⟨isMinus .negative, m, e⟩ := by
          rw [ha]
          exact Nat.cast_nonneg n
        exact absurd hnonneg (not_le.2 (neg_lt_zero.2 hpos))
      | positive => exact roundToInt_exact .positive ha
  change (UInt32.ofNatClamp (x.toModel.unpack.toInt 0 (UInt32.size - 1)).toNat).toNat = n
  rw [hint, Int.toNat_natCast, UInt32.ofNatClamp, dif_pos hn]
  rfl

end Rounding

namespace Number

/-- Dropping the fraction keeps the sign and the integer part, and nothing else. -/
theorem ofFloat_truncated {v : Float} {b : Binary} (h : Reading.ofFloat v = .finite b) :
    ∃ c, Reading.ofFloat (truncated v) = .finite c ∧ c.negative = b.negative ∧ c.absValue = ⌊b.absValue⌋₊ := by
  obtain ⟨hlt, hleast, hgreatest, -⟩ := canonical_of_ofFloat h
  have hmantissa : b.truncated.mantissa < 2 ^ 53 := lt_of_le_of_lt (Nat.div_mul_le_self _ _) hlt
  obtain ⟨c, hc, hsign, habs⟩ := Binary.ofBits_toBits hmantissa hleast hgreatest
  refine ⟨c, ?_, hsign, habs.trans b.absValue_truncated⟩
  rw [truncated, h]
  exact (ofFloat_ofBits _).trans hc

/-- The remainder has the sign of the dividend, and is what a multiple of the divisor leaves of it. -/
theorem ofFloat_remainder {x y : Float} {a b : Binary} (hx : Reading.ofFloat x = .finite a)
    (hy : Reading.ofFloat y = .finite b) (hb : b.mantissa ≠ 0) :
    ∃ c, Reading.ofFloat (remainder x y) = .finite c ∧ c.negative = a.negative ∧
      c.absValue < b.absValue ∧ ∃ n : ℕ, a.absValue = n * b.absValue + c.absValue := by
  obtain ⟨hlta, hleasta, hgreatesta, -⟩ := canonical_of_ofFloat hx
  obtain ⟨hltb, hleastb, hgreatestb, -⟩ := canonical_of_ofFloat hy
  have hmantissa := Binary.mantissa_remainder_lt hlta hltb hb
  obtain ⟨c, hc, hsign, habs⟩ :=
    Binary.ofBits_toBits hmantissa (le_min hleasta hleastb) (min_le_of_left_le hgreatesta)
  refine ⟨c, ?_, hsign, ?_⟩
  · rw [remainder, hx, hy]
    dsimp only
    rw [if_neg hb]
    exact (ofFloat_ofBits _).trans hc
  · rw [habs]
    exact Binary.absValue_remainder hb

end Number
end PixelCode
