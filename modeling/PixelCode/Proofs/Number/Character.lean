import PixelCode.Proofs.Number.Exact

/-! The character of a double. The code is found by operations on doubles, of which none rounds. -/
namespace PixelCode

namespace Binary

def integerPart (b : Binary) : ℤ := if b.value < 0 then ⌈b.value⌉ else ⌊b.value⌋

private theorem integerPart_eq_floor (b : Binary) :
    b.integerPart = if b.negative then -(⌊b.absValue⌋₊ : ℤ) else ⌊b.absValue⌋₊ := by
  have hfloor : (⌊b.absValue⌋₊ : ℤ) = ⌊b.absValue⌋ := Int.natCast_floor_eq_floor b.absValue_nonneg
  rw [hfloor, integerPart, value]
  cases b.negative with
  | false => simp [b.absValue_nonneg]
  | true =>
    rcases b.absValue_nonneg.eq_or_lt with hzero | hpos
    · simp [← hzero]
    · simp [hpos, Int.ceil_neg]

end Binary

namespace Number

/-- What a multiple of a whole number leaves of another one is whole. -/
theorem eq_mod_of_lt {r : ℚ} {n m q : ℕ} (hnonneg : 0 ≤ r) (hlt : r < m) (h : (n : ℚ) = q * m + r) :
    r = (n % m : ℕ) := by
  have hle : (q * m : ℕ) ≤ n := by
    have hcast : ((q * m : ℕ) : ℚ) ≤ n := by
      rw [h, Nat.cast_mul]
      exact le_add_of_nonneg_right hnonneg
    exact Nat.cast_le.1 hcast
  obtain ⟨k, rfl⟩ := Nat.exists_eq_add_of_le hle
  have hk : r = k := by
    rw [Nat.cast_add, Nat.cast_mul] at h
    exact (add_left_cancel h).symm
  rw [hk] at hlt
  rw [Nat.mul_add_mod_of_lt (Nat.cast_lt.1 hlt), hk]

private theorem ofFloat_codes : Reading.ofFloat 65536.0 = .finite ⟨false, 2 ^ 52, -36⟩ := by decide

private theorem absValue_codes :
    Binary.absValue ⟨false, 2 ^ 52, -36⟩ = 65536 := by
  norm_num [Binary.absValue]

/-- What is less than the number of codes by a whole number is held by a double, so the sum is exact. -/
theorem ofFloat_add_codes {x : Float} {a : Binary} {k : ℕ} (hx : Reading.ofFloat x = .finite a) (hk : 0 < k)
    (hlt : k < 65536) (ha : a.value = -k) :
    ∃ c, Reading.ofFloat (x + (65536.0 : Float).abs) = .finite c ∧ c.value = 65536 - k := by
  obtain ⟨c, hc, hsign, habs⟩ :=
    Binary.ofBits_toBits (b := ⟨false, 65536 - k, 0⟩) (by dsimp only; omega) (by dsimp only; omega)
      (by dsimp only; omega)
  have hvalue : c.value = 65536 - k := by
    rw [Binary.value, hsign, if_neg Bool.false_ne_true, habs, Binary.absValue, zpow_zero, mul_one, Nat.cast_sub hlt.le,
      Nat.cast_ofNat]
  have hpos : (0 : ℚ) < k := Nat.cast_pos.2 hk
  have hless : (k : ℚ) < 65536 := by exact_mod_cast hlt
  have hnegative : a.mantissa ≠ 0 := by
    apply Binary.value_eq_zero_iff.not.1
    rw [ha]
    exact (neg_lt_zero.2 hpos).ne
  have hpositive : c.mantissa ≠ 0 := by
    apply Binary.value_eq_zero_iff.not.1
    rw [hvalue]
    exact (sub_pos.2 hless).ne'
  refine ⟨c, ?_, hvalue⟩
  apply ofFloat_add hx (ofFloat_abs ofFloat_codes) hnegative (by decide) (Reading.canonical_of_ofBits hc) hpositive
  rw [hvalue, ha, Binary.value, if_neg Bool.false_ne_true, absValue_codes]
  ring

/-- Of a whole number the remainder is exact, below zero as well. -/
theorem ofFloat_euclideanRemainder {x : Float} {a : Binary} {n : ℕ} (hx : Reading.ofFloat x = .finite a)
    (ha : a.absValue = n) :
    ∃ c, Reading.ofFloat (euclideanRemainder x 65536.0) = .finite c ∧
      c.value = ((if a.negative then -(n : ℤ) else n) % 65536 : ℤ) := by
  obtain ⟨r, hr, hsign, hlt, q, hq⟩ := ofFloat_remainder hx ofFloat_codes (by decide)
  rw [absValue_codes] at hlt hq
  rw [ha] at hq
  have hmod := eq_mod_of_lt (m := 65536) r.absValue_nonneg hlt hq
  have hless := lt_zero_iff hr
  have hvalue : r.value = if a.negative then -((n % 65536 : ℕ) : ℚ) else (n % 65536 : ℕ) := by
    rw [Binary.value, hsign, hmod]
  rw [euclideanRemainder]
  rcases Nat.eq_zero_or_pos (n % 65536) with hdivides | hpos
  · -- A zero is not less than zero, with a minus or without.
    rw [hdivides, Nat.cast_zero, neg_zero, ite_self] at hvalue
    refine ⟨r, by rw [if_neg (hless.not.2 hvalue.not_lt), hr], ?_⟩
    have hmultiple : (if a.negative then -(n : ℤ) else n) % 65536 = 0 := by
      split <;> omega
    rw [hvalue, hmultiple, Int.cast_zero]
  · have hcast : (0 : ℚ) < (n % 65536 : ℕ) := Nat.cast_pos.2 hpos
    cases hminus : a.negative with
    | false =>
      rw [hminus, if_neg Bool.false_ne_true] at hvalue
      refine ⟨r, by rw [if_neg (hless.not.2 (hvalue ▸ hcast.not_gt)), hr], ?_⟩
      have hcode : (n : ℤ) % 65536 = (n % 65536 : ℕ) := by omega
      rw [hvalue, if_neg Bool.false_ne_true, hcode, Int.cast_natCast]
    | true =>
      rw [hminus, if_pos rfl] at hvalue
      have hneg : r.value < 0 := hvalue ▸ neg_lt_zero.2 hcast
      rw [if_pos (hless.2 hneg), if_pos rfl]
      obtain ⟨c, hc, hsum⟩ := ofFloat_add_codes hr hpos (Nat.mod_lt n (by decide)) hvalue
      have hcode : -(n : ℤ) % 65536 = 65536 - (n % 65536 : ℕ) := by omega
      refine ⟨c, hc, ?_⟩
      rw [hsum, hcode, Int.cast_sub, Int.cast_natCast, Int.cast_ofNat]

/-- The character has the code, unless that is a surrogate. -/
theorem toNat_charOfCode {code : UInt32} (h : code.toNat < 0x10000) :
    (charOfCode code).toNat = if 0xD800 ≤ code.toNat ∧ code.toNat ≤ 0xDFFF then 0xFFFD else code.toNat := by
  unfold charOfCode
  by_cases hsurrogate : 0xD800 ≤ code.toNat ∧ code.toNat ≤ 0xDFFF
  · have hinvalid : ¬code.toNat.isValidChar := by
      unfold Nat.isValidChar
      omega
    rw [if_neg hinvalid, if_pos hsurrogate]
    rfl
  · have hvalid : code.toNat.isValidChar := by
      unfold Nat.isValidChar
      omega
    rw [if_pos hvalid, if_neg hsurrogate, Char.ofNat, dif_pos hvalid]
    rfl

/-- The code is the integer part modulo 65536. -/
theorem ofFloat_code {v : Float} {b : Binary} (h : Reading.ofFloat v = .finite b) :
    ∃ c, Reading.ofFloat (euclideanRemainder (truncated v) 65536.0) = .finite c ∧
      c.value = (b.integerPart % 65536 : ℤ) := by
  obtain ⟨t, ht, hsign, habs⟩ := ofFloat_truncated h
  obtain ⟨c, hc, hvalue⟩ := ofFloat_euclideanRemainder ht habs
  refine ⟨c, hc, ?_⟩
  rw [hvalue, hsign, Binary.integerPart_eq_floor]

private theorem toNat_toChar {v : Float} {b : Binary} (h : Reading.ofFloat v = .finite b) :
    (toChar v).toNat = if 0xD800 ≤ b.integerPart % 65536 ∧ b.integerPart % 65536 ≤ 0xDFFF then 0xFFFD
      else (b.integerPart % 65536).toNat := by
  obtain ⟨c, hc, hvalue⟩ := ofFloat_code h
  obtain ⟨code, hcode⟩ := Int.eq_ofNat_of_zero_le (Int.emod_nonneg b.integerPart (by decide : (65536 : ℤ) ≠ 0))
  have hlt : code < 0x10000 := by omega
  rw [hcode, Int.cast_natCast] at hvalue
  have hword := toUInt32_of_value hc hvalue (hlt.trans (by decide))
  rw [toChar, if_pos (isFinite_iff.2 ⟨b, h⟩), toNat_charOfCode (hword ▸ hlt), hword, hcode, Int.toNat_natCast]
  congr 1
  norm_cast

private theorem toChar_of_not_finite {v : Float} (h : ∀ b, Reading.ofFloat v ≠ .finite b) :
    toChar v = '\x00' := by
  have hfinite : ¬v.isFinite = true := fun hv => (isFinite_iff.1 hv).elim h
  rw [toChar, if_neg hfinite]
  rfl

/-- A finite double, of whatever size, becomes the character whose code is its integer part modulo 65536, and the
replacement character where that code is a surrogate. The remainder on the way is exact and never 65536 itself. All
else becomes the null character, and every character is in the first plane. -/
theorem toNat_toChar_ofBits (bits : UInt64) :
    (∀ b, Reading.ofBits bits = .finite b →
      (∃ c, Reading.ofFloat (euclideanRemainder (truncated (.ofBits bits)) 65536.0) = .finite c ∧
        c.value = (b.integerPart % 65536 : ℤ) ∧ 0 ≤ c.value ∧ c.value < 65536) ∧
      (toChar (.ofBits bits)).toNat =
        if 0xD800 ≤ b.integerPart % 65536 ∧ b.integerPart % 65536 ≤ 0xDFFF then 0xFFFD
        else (b.integerPart % 65536).toNat) ∧
    ((∀ b, Reading.ofBits bits ≠ .finite b) → toChar (.ofBits bits) = '\x00') ∧
    (toChar (.ofBits bits)).toNat < 0x10000 := by
  rw [← ofFloat_ofBits]
  refine ⟨fun b hb => ⟨?_, toNat_toChar hb⟩, toChar_of_not_finite, ?_⟩
  · obtain ⟨c, hc, hvalue⟩ := ofFloat_code hb
    have hnonneg : 0 ≤ b.integerPart % 65536 := Int.emod_nonneg _ (by decide)
    have hlt : b.integerPart % 65536 < 65536 := Int.emod_lt_of_pos _ (by decide)
    refine ⟨c, hc, hvalue, ?_, ?_⟩
    · rw [hvalue]
      exact_mod_cast hnonneg
    · rw [hvalue]
      exact_mod_cast hlt
  · by_cases hfinite : ∃ b, Reading.ofFloat (.ofBits bits) = .finite b
    · obtain ⟨b, hb⟩ := hfinite
      rw [toNat_toChar hb]
      split <;> omega
    · rw [toChar_of_not_finite fun b hb => hfinite ⟨b, hb⟩]
      decide

/-- The fraction of -65.5 is dropped before the code is wrapped. -/
theorem toNat_toChar_below_zero :
    Reading.ofBits 0xC050600000000000 = .finite ⟨true, 131 * 2 ^ 45, -46⟩ ∧
      (toChar (.ofBits 0xC050600000000000)).toNat = 0xFFBF := by
  have hpart : Binary.integerPart ⟨true, 131 * 2 ^ 45, -46⟩ = -65 := by
    norm_num [Binary.integerPart, Binary.value, Binary.absValue]
  have hread : Reading.ofBits 0xC050600000000000 = .finite ⟨true, 131 * 2 ^ 45, -46⟩ := by decide
  have hchar := ((toNat_toChar_ofBits _).1 _ hread).2
  rw [hpart] at hchar
  exact ⟨hread, hchar⟩

end Number
end PixelCode
