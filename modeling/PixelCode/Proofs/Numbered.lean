import PixelCode.Proofs.Except

/-! Items that are read one after another, where the first one that cannot be read is reported with its number.
What two lists of items give follows from what each of them gives. -/
namespace PixelCode

variable {α β ε : Type} {read : α → Except ε (List β)}

def readNumbered (read : α → Except ε (List β)) : Nat → List α → Except (Nat × ε) (List β)
  | _, [] => .ok []
  | number, item :: items =>
    match read item with
    | .error e => .error (number, e)
    | .ok part => (readNumbered read (number + 1) items).map (part ++ ·)

theorem readNumbered_append (number : Nat) (items more : List α) :
    readNumbered read number (items ++ more) = (readNumbered read number items >>= fun parts =>
      (readNumbered read (number + items.length) more).map (parts ++ ·)) := by
  induction items generalizing number with
  | nil =>
    show readNumbered read number more = (readNumbered read number more).map ([] ++ ·)
    cases readNumbered read number more <;> rfl
  | cons item items ih =>
    have hnumber : number + (item :: items).length = number + 1 + items.length := by
      rw [List.length_cons]
      omega
    rw [List.cons_append, readNumbered, readNumbered, hnumber]
    cases read item with
    | error e => rfl
    | ok part =>
      simp only [ih]
      cases readNumbered read (number + 1) items with
      | error e => rfl
      | ok parts =>
        cases readNumbered read (number + 1 + items.length) more with
        | error e => rfl
        | ok last => exact congrArg Except.ok (List.append_assoc part parts last).symm

/-- Only the number in an error depends on the number of the first item. -/
theorem readNumbered_add (count number : Nat) (items : List α) :
    readNumbered read (count + number) items =
      (readNumbered read number items).mapError fun e => (count + e.1, e.2) := by
  induction items generalizing number with
  | nil => rfl
  | cons item items ih =>
    rw [readNumbered, readNumbered]
    cases read item with
    | error e => rfl
    | ok part =>
      simp only [Nat.add_assoc, ih]
      cases readNumbered read (number + 1) items <;> rfl

/-- An error is that of the first item that cannot be read. -/
theorem exists_failing_item {number : Nat} {items : List α} {e : Nat × ε}
    (h : readNumbered read number items = .error e) :
    ∃ before item after, items = before ++ item :: after ∧ e.1 = number + before.length ∧
      (∀ i ∈ before, ∃ part, read i = .ok part) ∧ read item = .error e.2 := by
  induction items generalizing number with
  | nil => cases h
  | cons item items ih =>
    rw [readNumbered] at h
    cases hitem : read item with
    | error cause =>
      rw [hitem] at h
      cases h
      exact ⟨[], item, items, rfl, rfl, List.forall_mem_nil _, hitem⟩
    | ok part =>
      rw [hitem] at h
      obtain ⟨before, failing, after, rfl, hnumber, hbefore, hfailing⟩ := ih (map_eq_error_iff.1 h)
      refine ⟨item :: before, failing, after, rfl, ?_, List.forall_mem_cons.2 ⟨⟨part, hitem⟩, hbefore⟩, hfailing⟩
      rw [hnumber, List.length_cons]
      omega

end PixelCode
