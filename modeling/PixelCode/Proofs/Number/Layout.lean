import Mathlib
import PixelCode.Number.Binary

/-! How doubles are laid out. What the 64 bits of a double are read as agrees with the sign, mantissa and exponent into
which operations on doubles take it apart, so a statement about readings is one about those operations. -/
namespace PixelCode

open Float.Model Float.Model.UnpackedFloat

/-- The form in which a double holds a number: a full mantissa, or the least exponent. -/
structure Binary.Canonical (b : Binary) : Prop where
  mantissa_lt : b.mantissa < 2 ^ 53
  le_exponent : -1074 ≤ b.exponent
  exponent_le : b.exponent ≤ 971
  full_or_least : 2 ^ 52 ≤ b.mantissa ∨ b.exponent = -1074

namespace Reading

def ofFields (negative : Bool) (scale fraction : Nat) : Reading :=
  if scale = 2047 then
    if fraction = 0 then .infinity negative else .nan
  else if scale = 0 then .finite ⟨negative, fraction, -1074⟩
  else .finite ⟨negative, 2 ^ 52 + fraction, (scale : Int) - 1075⟩

private theorem ofBits_eq_ofFields (bits : UInt64) :
    ofBits bits =
      ofFields (decide (2 ^ 63 ≤ bits.toNat)) (bits.toNat / 2 ^ 52 % 2 ^ 11) (bits.toNat % 2 ^ 52) := rfl

/-- The bits of a double are its fields one after another. -/
theorem ofBits_of_toNat {bits : UInt64} {negative : Bool} {scale fraction : Nat} (hscale : scale < 2 ^ 11)
    (hfraction : fraction < 2 ^ 52)
    (h : bits.toNat = negative.toNat * 2 ^ 63 + scale * 2 ^ 52 + fraction) :
    ofBits bits = ofFields negative scale fraction := by
  have hsign : decide (2 ^ 63 ≤ bits.toNat) = negative := by
    rw [h]
    cases negative
    · apply decide_eq_false
      rw [Bool.toNat_false]
      omega
    · apply decide_eq_true
      rw [Bool.toNat_true]
      omega
  have hscale' : bits.toNat / 2 ^ 52 % 2 ^ 11 = scale := by
    have := negative.toNat_lt
    omega
  have hfraction' : bits.toNat % 2 ^ 52 = fraction := by omega
  rw [ofBits_eq_ofFields, hsign, hscale', hfraction']

private theorem canonical_of_ofFields {negative : Bool} {scale fraction : Nat} {b : Binary}
    (hscale : scale < 2 ^ 11)
    (hfraction : fraction < 2 ^ 52) (h : ofFields negative scale fraction = .finite b) : b.Canonical := by
  unfold ofFields at h
  split at h
  · split at h <;> cases h
  · split at h
    · cases h
      constructor <;> dsimp only <;> omega
    · cases h
      constructor <;> dsimp only <;> omega

theorem canonical_of_ofBits {bits : UInt64} {b : Binary} (h : ofBits bits = .finite b) : b.Canonical :=
  canonical_of_ofFields (Nat.mod_lt _ (by decide)) (Nat.mod_lt _ (by decide)) h

/-- All but the doubles that are not numbers have fields of their own. -/
theorem eq_of_ofFields {n₁ n₂ : Bool} {s₁ s₂ f₁ f₂ : Nat} (hf₁ : f₁ < 2 ^ 52) (hf₂ : f₂ < 2 ^ 52)
    (h : ofFields n₁ s₁ f₁ = ofFields n₂ s₂ f₂) (hnan : ofFields n₁ s₁ f₁ ≠ .nan) :
    n₁ = n₂ ∧ s₁ = s₂ ∧ f₁ = f₂ := by
  unfold ofFields at h hnan
  split_ifs at h hnan <;> simp at h hnan <;> grind

private theorem eq_of_ofBits {x y : UInt64} (h : ofBits x = ofBits y) (hnan : ofBits x ≠ .nan) :
    x = y := by
  rw [ofBits_eq_ofFields, ofBits_eq_ofFields] at h
  rw [ofBits_eq_ofFields] at hnan
  obtain ⟨hsign, hscale, hfraction⟩ := eq_of_ofFields (Nat.mod_lt _ (by decide)) (Nat.mod_lt _ (by decide)) h hnan
  have hx := x.toNat_lt
  have hy := y.toNat_lt
  rw [decide_eq_decide] at hsign
  apply UInt64.toNat_inj.1
  omega

end Reading

section Unpacking

private theorem toNat_unpackMantissa (x : BitVec 64) :
    (@unpackMantissa .binary64 x).toNat = x.toNat % 2 ^ 52 := by
  simp [unpackMantissa]

private theorem toNat_unpackExponent (x : BitVec 64) :
    (@unpackExponent .binary64 x).toNat = x.toNat / 2 ^ 52 % 2 ^ 11 := by
  simp [unpackExponent, Nat.shiftRight_eq_div_pow]

private theorem toNat_unpackSign (x : BitVec 64) :
    (@unpackSign .binary64 x).toNat = x.toNat / 2 ^ 63 := by
  have hlt : x.toNat < 2 ^ 64 := x.isLt
  simp only [unpackSign, BitVec.toNat_cast, BitVec.extractLsb_toNat, Nat.shiftRight_eq_div_pow]
  exact Nat.mod_eq_of_lt (by omega)

def isMinus : Sign → Bool
  | .negative => true
  | .positive => false

def Reading.ofUnpacked : UnpackedFloat → Reading
  | .notANumber => .nan
  | .infinity s => .infinity (isMinus s)
  | .zero s => .finite ⟨isMinus s, 0, -1074⟩
  | .finite s m e _ => .finite ⟨isMinus s, m, e⟩

private theorem isMinus_unpackSign (x : BitVec 64) :
    isMinus (.ofBitVec (@unpackSign .binary64 x)) = decide (2 ^ 63 ≤ x.toNat) := by
  have hsign := toNat_unpackSign x
  have hlt : x.toNat < 2 ^ 64 := x.isLt
  rw [Sign.ofBitVec]
  split
  next hzero =>
    rw [hzero] at hsign
    change 0 = _ at hsign
    symm
    apply decide_eq_false
    omega
  next hone =>
    symm
    apply decide_eq_true
    by_contra hsmall
    apply hone
    apply BitVec.eq_of_toNat_eq
    rw [hsign]
    change _ = 0
    omega

private theorem toNat_one_append (x : BitVec 52) : (1#1 ++ x).toNat = 2 ^ 52 + x.toNat := by
  rw [BitVec.toNat_append]
  exact (Nat.two_pow_add_eq_or_of_lt x.isLt 1).symm

private theorem ofUnpacked_unpack (x : BitVec 64) :
    Reading.ofUnpacked (UnpackedFloat.unpack .binary64 x) =
      Reading.ofFields (decide (2 ^ 63 ≤ x.toNat)) (x.toNat / 2 ^ 52 % 2 ^ 11) (x.toNat % 2 ^ 52) := by
  have hones : @unpackExponent .binary64 x = -1#11 ↔ x.toNat / 2 ^ 52 % 2 ^ 11 = 2047 := by
    rw [← toNat_unpackExponent, ← BitVec.toNat_inj]
    rfl
  have hzeros : @unpackExponent .binary64 x = 0#11 ↔ x.toNat / 2 ^ 52 % 2 ^ 11 = 0 := by
    rw [← toNat_unpackExponent, ← BitVec.toNat_inj]
    rfl
  have hnone : @unpackMantissa .binary64 x = 0#52 ↔ x.toNat % 2 ^ 52 = 0 := by
    rw [← toNat_unpackMantissa, ← BitVec.toNat_inj]
    rfl
  rw [UnpackedFloat.unpack, Reading.ofFields, ← isMinus_unpackSign]
  split
  next hscale =>
    rw [if_pos (hones.1 hscale)]
    split
    next hfraction => rw [if_pos (hnone.1 hfraction), Reading.ofUnpacked]
    next hfraction => rw [if_neg (mt hnone.2 hfraction), Reading.ofUnpacked]
  next hscale =>
    rw [if_neg (mt hones.2 hscale)]
    split
    next hleast =>
      rw [if_pos (hzeros.1 hleast)]
      split
      next hfraction =>
        rw [hnone.1 hfraction, Reading.ofUnpacked]
      next hfraction =>
        rw [Reading.ofUnpacked, toNat_unpackMantissa, toNat_unpackExponent, hzeros.1 hleast]
        rfl
    next hleast =>
      rw [if_neg (mt hzeros.2 hleast), Reading.ofUnpacked, toNat_one_append, toNat_unpackMantissa, toNat_unpackExponent]
      rfl

end Unpacking

section Packing

private theorem toNat_packComponents (s : Sign) (scale : BitVec 11) (fraction : BitVec 52) :
    (packComponents .binary64 s scale fraction).toNat =
      (isMinus s).toNat * 2 ^ 63 + scale.toNat * 2 ^ 52 + fraction.toNat := by
  have hsign : s.toBitVec.toNat = (isMinus s).toNat := by cases s <;> rfl
  have hscale : (s.toBitVec ++ scale).toNat = (isMinus s).toNat * 2 ^ 11 + scale.toNat := by
    rw [BitVec.toNat_append, hsign, ← Nat.shiftLeft_add_eq_or_of_lt scale.isLt, Nat.shiftLeft_eq]
  have hall : (s.toBitVec ++ scale ++ fraction).toNat = (s.toBitVec ++ scale).toNat * 2 ^ 52 + fraction.toNat := by
    rw [BitVec.toNat_append, ← Nat.shiftLeft_add_eq_or_of_lt fraction.isLt, Nat.shiftLeft_eq]
  refine hall.trans ?_
  rw [hscale]
  omega

private theorem ofBits_packComponents (s : Sign) (scale : BitVec 11) (fraction : BitVec 52) :
    Reading.ofBits (.ofBitVec (packComponents .binary64 s scale fraction)) =
      .ofFields (isMinus s) scale.toNat fraction.toNat :=
  Reading.ofBits_of_toNat scale.isLt fraction.isLt (toNat_packComponents s scale fraction)

/-- A number that a double holds is packed without a loss. -/
theorem ofBits_pack_finite {s : Sign} {m : Nat} {e : Int} (hm : 0 < m) (h : Binary.Canonical ⟨isMinus s, m, e⟩) :
    Reading.ofBits (.ofBitVec (UnpackedFloat.pack .binary64 (.finite s m e hm))) = .finite ⟨isMinus s, m, e⟩ := by
  obtain ⟨hlt, hleast, hgreatest, hform⟩ := h
  dsimp only at hlt hleast hgreatest hform
  obtain ⟨scale, hscale⟩ := Int.eq_ofNat_of_zero_le (show 0 ≤ e + 1075 by omega)
  have hbias : (e + (Format.exponentBias .binary64 : Nat) + (52 : Nat)).toNat = scale := by
    change (e + 1023 + 52).toNat = scale
    omega
  have hfits : ¬ 2 ^ 11 ≤ scale + 1 := by omega
  have hlog : m.log2 + 1 = Format.mantissaBits .binary64 ↔ 2 ^ 52 ≤ m := by
    change m.log2 + 1 = 53 ↔ _
    have hbelow : m.log2 < 53 := (Nat.log2_lt (by omega)).2 hlt
    rw [← Nat.le_log2 (by omega)]
    omega
  rw [UnpackedFloat.pack]
  simp only [hbias]
  rw [if_neg hfits]
  by_cases hfull : 2 ^ 52 ≤ m
  · rw [if_pos (hlog.2 hfull)]
    rw [ofBits_packComponents, BitVec.toNat_ofNat, BitVec.toNat_ofNat, Nat.mod_eq_of_lt (by omega : scale < 2 ^ 11),
      Reading.ofFields, if_neg (by omega), if_neg (by omega)]
    congr 2 <;> omega
  · rw [if_neg (mt hlog.1 hfull)]
    rw [ofBits_packComponents, BitVec.toNat_ofNat, BitVec.toNat_ofNat, Nat.mod_eq_of_lt (by omega : m < 2 ^ 52),
      hform.resolve_left hfull]
    rfl

end Packing

section Float

private theorem ofFloat_eq_ofUnpacked (v : Float) :
    Reading.ofFloat v = .ofUnpacked v.toModel.unpack :=
  (ofUnpacked_unpack v.toModel.toBits.toBitVec).symm

theorem canonical_of_ofFloat {v : Float} {b : Binary} (h : Reading.ofFloat v = .finite b) : b.Canonical :=
  Reading.canonical_of_ofBits h

/-- What a double is packed from can be read from it, if a double holds it. -/
theorem ofFloat_pack {u : UnpackedFloat} (h : ∀ b, Reading.ofUnpacked u = .finite b → b.Canonical) :
    Reading.ofFloat (.ofModel (.pack u)) = .ofUnpacked u := by
  cases u with
  | notANumber => rfl
  | infinity s => cases s <;> rfl
  | zero s => cases s <;> rfl
  | finite s m e hm => exact ofBits_pack_finite hm (h _ rfl)

theorem ofFloat_ofBits (bits : UInt64) : Reading.ofFloat (.ofBits bits) = .ofBits bits := by
  have hread : Reading.ofUnpacked (UnpackedFloat.unpack .binary64 bits.toBitVec) = Reading.ofBits bits :=
    ofUnpacked_unpack bits.toBitVec
  refine (ofFloat_pack fun b hb => ?_).trans hread
  exact Reading.canonical_of_ofBits (hread.symm.trans hb)

/-- A double that is a number is unpacked as a zero or as its sign, mantissa and exponent. -/
theorem unpack_of_ofFloat {v : Float} {b : Binary} (h : Reading.ofFloat v = .finite b) :
    (∃ s, v.toModel.unpack = .zero s ∧ b = ⟨isMinus s, 0, -1074⟩) ∨
      ∃ s m e hm, v.toModel.unpack = .finite s m e hm ∧ b = ⟨isMinus s, m, e⟩ := by
  rw [ofFloat_eq_ofUnpacked] at h
  cases hu : v.toModel.unpack with
  | notANumber =>
    rw [hu] at h
    cases h
  | infinity s =>
    rw [hu] at h
    cases h
  | zero s =>
    rw [hu] at h
    exact .inl ⟨s, rfl, (Reading.finite.inj h).symm⟩
  | finite s m e hm =>
    rw [hu] at h
    exact .inr ⟨s, m, e, hm, rfl, (Reading.finite.inj h).symm⟩

theorem ofFloat_abs {v : Float} {b : Binary} (h : Reading.ofFloat v = .finite b) :
    Reading.ofFloat v.abs = .finite { b with negative := false } := by
  obtain ⟨hlt, hleast, hgreatest, hform⟩ := canonical_of_ofFloat h
  have habs : Reading.ofUnpacked v.toModel.unpack.abs = .finite { b with negative := false } := by
    obtain ⟨s, hu, rfl⟩ | ⟨s, m, e, hm, hu, rfl⟩ := unpack_of_ofFloat h <;> rw [hu] <;> rfl
  refine (ofFloat_pack fun b' hb' => ?_).trans habs
  cases habs.symm.trans hb'
  exact ⟨hlt, hleast, hgreatest, hform⟩

theorem isFinite_iff {v : Float} : v.isFinite = true ↔ ∃ b, Reading.ofFloat v = .finite b := by
  rw [ofFloat_eq_ofUnpacked]
  change v.toModel.unpack.isFinite = true ↔ _
  cases v.toModel.unpack <;> simp [UnpackedFloat.isFinite, Reading.ofUnpacked]

theorem isNaN_iff {v : Float} : v.isNaN = true ↔ Reading.ofFloat v = .nan := by
  rw [ofFloat_eq_ofUnpacked]
  change v.toModel.unpack.isNaN = true ↔ _
  cases v.toModel.unpack <;> simp [UnpackedFloat.isNaN, Reading.ofUnpacked]

theorem eq_of_ofFloat {v w : Float} (h : Reading.ofFloat v = Reading.ofFloat w) (hnan : Reading.ofFloat v ≠ .nan) :
    v = w :=
  Float.toBits_inj.1 (Reading.eq_of_ofBits h hnan)

end Float
end PixelCode
