import Mathlib
import PixelCode.Text.Upper

/-! Upper-cased text has no small ASCII letter left, so there the case of ASCII letters makes no
difference. -/
namespace PixelCode.Text

theorem isLower_iff {c : Char} : c.isLower = true ↔ 97 ≤ c.toNat ∧ c.toNat ≤ 122 := by
  simp [Char.isLower, UInt32.le_iff_toNat_le]

private theorem isLower_ofNat {n : Nat} (h : (Char.ofNat n).isLower = true) : 97 ≤ n ∧ n ≤ 122 := by
  rw [isLower_iff, Char.toNat_ofNat] at h
  split at h
  · exact h
  · exact absurd h (by decide)

private theorem not_isLower_caseExpansions :
    ∀ entry ∈ caseExpansions, ∀ code ∈ entry.2, ¬ (97 ≤ code ∧ code ≤ 122) := by
  decide +kernel

private theorem not_isLower_caseRuns :
    ∀ run ∈ caseRuns, 122 < run.capital ∨ run.capital + (run.last - run.first) < 97 := by
  decide +kernel

private theorem CaseRun.not_isLower_of_capital? {run : CaseRun} (hrun : run ∈ caseRuns)
    {code capital : Nat}
    (h : run.capital? code = some capital) : ¬ (97 ≤ capital ∧ capital ≤ 122) := by
  have hrange := not_isLower_caseRuns run hrun
  rw [capital?] at h
  obtain ⟨hin, heq⟩ := Option.ite_none_right_eq_some.1 h
  cases heq
  omega

private theorem not_isLower_upperBeyondAscii {c x : Char} (hc : ¬ c.toNat < 128)
    (hx : x ∈ upperBeyondAscii c) : ¬ x.isLower = true := by
  intro hlower
  unfold upperBeyondAscii at hx
  split at hx
  next codes hentry =>
    obtain ⟨code, hcode, rfl⟩ := List.mem_map.1 hx
    obtain ⟨before, after, hsplit, -⟩ := List.lookup_eq_some_iff.1 hentry
    have hmem : (c.toNat, codes) ∈ caseExpansions := by simp [hsplit]
    exact not_isLower_caseExpansions _ hmem code hcode (isLower_ofNat hlower)
  next =>
    split at hx
    next code hrun =>
      cases List.mem_singleton.1 hx
      obtain ⟨run, hmem, hcapital⟩ := List.exists_of_findSome?_eq_some hrun
      exact CaseRun.not_isLower_of_capital? hmem hcapital (isLower_ofNat hlower)
    next =>
      cases List.mem_singleton.1 hx
      have := isLower_iff.1 hlower
      omega

/-- No small ASCII letter is left in upper-cased text. -/
theorem not_isLower_upper {cs : List Char} {x : Char} (hx : x ∈ upper cs) : ¬ x.isLower = true := by
  obtain ⟨c, -, hc⟩ := List.mem_flatMap.1 hx
  unfold upperChar at hc
  split at hc
  next =>
    cases List.mem_singleton.1 hc
    simp
  next hbeyond => exact not_isLower_upperBeyondAscii hbeyond hc

/-- Upper-cased text is what its small letters stand for. -/
theorem map_toUpper_toLower_upper (cs : List Char) :
    ((upper cs).map Char.toLower).map Char.toUpper = upper cs := by
  rw [List.map_map]
  refine (List.map_congr_left fun x hx => ?_).trans (List.map_id _)
  rw [Function.comp_apply, Char.toUpper_toLower_eq_toUpper,
    Char.toUpper_eq_of_not_isLower (not_isLower_upper hx), id]

theorem upper_cons_of_ascii {c : Char} (hc : c.toNat < 128) (cs : List Char) :
    upper (c :: cs) = c.toUpper :: upper cs := by
  rw [upper, List.flatMap_cons, upperChar, if_pos hc]
  rfl

end PixelCode.Text
