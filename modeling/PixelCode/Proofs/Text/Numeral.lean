import Mathlib.Data.List.Forall2
import Mathlib.Data.Nat.Digits.Defs
import PixelCode.Text.Digits

/-! What digits stand for, as a relation between characters and numbers, and that numbers are read by
it. -/
namespace PixelCode.Text

def smallDigits : List Char := "0123456789abcdef".toList
def capitalDigits : List Char := "0123456789ABCDEF".toList

def IsDigit (base : Nat) (c : Char) (d : Nat) : Prop :=
  d < base ∧ (smallDigits[d]? = some c ∨ capitalDigits[d]? = some c)

/-- At least one digit, and the number that they stand for, the most significant digit first. -/
def Denotes (base : Nat) (cs : List Char) (n : Nat) : Prop :=
  cs ≠ [] ∧ ∃ ds, List.Forall₂ (IsDigit base) cs ds ∧ Nat.ofDigits base ds.reverse = n

variable {base limit n d : Nat} {c : Char} {cs : List Char}

/-- A list that holds the characters of a range in order holds each of them at its distance from
the first. -/
private theorem getElem?_of_range {digits : List Char} {first last : Char} (skip : Nat)
    (hdigits : ∀ k ≤ last.toNat - first.toNat,
      digits[k + skip]? = some (Char.ofNat (first.toNat + k)))
    (hrange : first ≤ c ∧ c ≤ last) : digits[c.toNat - first.toNat + skip]? = some c := by
  have hfirst : first.toNat ≤ c.toNat := hrange.1
  have hlast : c.toNat ≤ last.toNat := hrange.2
  rw [hdigits _ (by omega), Nat.add_sub_cancel' hfirst, Char.ofNat_toNat]

private theorem isDigit_of_digit? (h : digit? base c = some d) : IsDigit base c d := by
  unfold digit? at h
  obtain ⟨hd, hvalue⟩ := Option.ite_none_right_eq_some.1 h
  cases hvalue
  refine ⟨hd, ?_⟩
  split
  next hrange => exact .inl (getElem?_of_range 0 (by decide) hrange)
  next hdecimal =>
    split
    next hrange => exact .inl (getElem?_of_range 10 (by decide) hrange)
    next hsmall =>
      split
      next hrange => exact .inr (getElem?_of_range 10 (by decide) hrange)
      next hcapital =>
        rw [if_neg hdecimal, if_neg hsmall, if_neg hcapital] at hd
        exact absurd hd (Nat.lt_irrefl base)

/-- A digit of base sixteen has the same value in every base that has it. -/
private theorem digit?_of_lt (h : digit? 16 c = some d) (hd : d < base) :
    digit? base c = some d := by
  unfold digit? at h ⊢
  obtain ⟨hvalue, heq⟩ := Option.ite_none_right_eq_some.1 h
  cases heq
  refine Option.ite_none_right_eq_some.2 ⟨?_, ?_⟩ <;> grind

theorem digit?_eq_some_iff : digit? base c = some d ↔ IsDigit base c d := by
  constructor
  · exact isDigit_of_digit?
  · rintro ⟨hd, hc⟩
    have hread : ∀ k < 16, smallDigits[k]?.bind (digit? 16) = some k ∧
        capitalDigits[k]?.bind (digit? 16) = some k := by decide
    rcases hc with hc | hc
    · obtain ⟨hlt, -⟩ := List.getElem?_eq_some_iff.1 hc
      have hvalue := (hread d hlt).1
      rw [hc] at hvalue
      exact digit?_of_lt hvalue hd
    · obtain ⟨hlt, -⟩ := List.getElem?_eq_some_iff.1 hc
      have hvalue := (hread d hlt).2
      rw [hc] at hvalue
      exact digit?_of_lt hvalue hd

private theorem not_isDigit_plus : ¬ IsDigit base '+' d := by
  rintro ⟨-, hc | hc⟩
  · exact absurd (List.mem_of_getElem? hc) (by decide)
  · exact absurd (List.mem_of_getElem? hc) (by decide)

private theorem continueDigits?_eq_some_iff {acc : Nat} :
    continueDigits? base acc cs = some n ↔
      ∃ ds, List.Forall₂ (IsDigit base) cs ds ∧ ds.foldl (fun m d => m * base + d) acc = n := by
  induction cs generalizing acc with
  | nil => simp [continueDigits?]
  | cons c cs ih =>
    rw [continueDigits?]
    cases hdigit : digit? base c with
    | none =>
      constructor
      · intro h
        cases h
      · rintro ⟨ds, hds, -⟩
        cases hds with
        | cons hc _ => rw [digit?_eq_some_iff.2 hc] at hdigit; cases hdigit
    | some d =>
      have hc := digit?_eq_some_iff.1 hdigit
      refine ih.trans ⟨?_, ?_⟩
      · rintro ⟨ds, hds, hn⟩
        exact ⟨d :: ds, .cons hc hds, hn⟩
      · rintro ⟨ds, hds, hn⟩
        cases hds with
        | cons hc' hds =>
          cases hdigit.symm.trans (digit?_eq_some_iff.2 hc')
          exact ⟨_, hds, hn⟩

private theorem ofDigits_reverse (ds : List Nat) :
    Nat.ofDigits base ds.reverse = ds.foldl (fun m d => m * base + d) 0 := by
  rw [Nat.ofDigits_eq_foldr, List.foldr_reverse]
  simp only [Nat.cast_id, Nat.add_comm, Nat.mul_comm]

/-- Exactly the runs of digits are numbers. -/
theorem digits?_eq_some_iff : digits? base cs = some n ↔ Denotes base cs n := by
  cases cs with
  | nil => simp [digits?, Denotes]
  | cons c cs => simp only [digits?, continueDigits?_eq_some_iff, Denotes, ofDigits_reverse, ne_eq,
      reduceCtorEq, not_false_eq_true, true_and]

private theorem not_denotes_plus : ¬ Denotes base ('+' :: cs) n := by
  rintro ⟨-, ds, hds, -⟩
  cases hds with
  | cons hplus _ => exact not_isDigit_plus hplus

/-- Exactly the runs of digits, with a plus sign before them or without, are numbers, up to the
limit. -/
theorem unsigned?_eq_some_iff :
    unsigned? base limit cs = some n ↔
      n < limit ∧ (Denotes base cs n ∨ ∃ rest, cs = '+' :: rest ∧ Denotes base rest n) := by
  unfold unsigned?
  simp only [Option.filter_eq_some_iff, decide_eq_true_eq]
  split
  next rest =>
    simp [digits?_eq_some_iff, not_denotes_plus, and_comm]
  next hplus =>
    rw [digits?_eq_some_iff, and_comm]
    refine and_congr_right fun _ => ⟨.inl, ?_⟩
    rintro (h | ⟨rest, rfl, -⟩)
    · exact h
    · exact absurd rfl (hplus rest)

private theorem length_encode_of_isDigit (h : IsDigit base c d) :
    (String.utf8EncodeChar c).length = 1 := by
  have hsize : (smallDigits ++ capitalDigits).all (fun c => (String.utf8EncodeChar c).length == 1) = true := rfl
  have hmem : c ∈ smallDigits ++ capitalDigits := by
    rcases h.2 with hc | hc
    · exact List.mem_append_left _ (List.mem_of_getElem? hc)
    · exact List.mem_append_right _ (List.mem_of_getElem? hc)
  exact beq_iff_eq.1 (List.all_eq_true.1 hsize c hmem)

private theorem length_encode_of_denotes (h : Denotes base cs n) :
    (cs.flatMap String.utf8EncodeChar).length = cs.length := by
  obtain ⟨-, ds, hds, -⟩ := h
  induction hds with
  | nil => rfl
  | cons hc _ ih =>
    rw [List.flatMap_cons, List.length_append, length_encode_of_isDigit hc, ih, List.length_cons, Nat.add_comm]

/-- Each character of a number takes one byte. -/
theorem length_encode_of_unsigned? (h : unsigned? base limit cs = some n) :
    cs ≠ [] ∧ (cs.flatMap String.utf8EncodeChar).length = cs.length := by
  obtain ⟨-, hplain | ⟨rest, rfl, hsigned⟩⟩ := unsigned?_eq_some_iff.1 h
  · exact ⟨hplain.1, length_encode_of_denotes hplain⟩
  · refine ⟨List.cons_ne_nil _ _, ?_⟩
    rw [List.flatMap_cons, List.length_append, length_encode_of_denotes hsigned, List.length_cons, Nat.add_comm]
    rfl

end PixelCode.Text
