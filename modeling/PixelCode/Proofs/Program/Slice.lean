import PixelCode.Proofs.Program.Walk

/-! The bytes of a program between two positions, and from a position on. -/
namespace PixelCode.Program

def slice (p : Program) (start stop : Nat) : List UInt8 := (p.bytes.extract start stop).toList

variable {p : Program} {pc stop : Nat}

theorem slice_eq (p : Program) (start stop : Nat) :
    p.slice start stop = (p.toList.drop start).take (stop - start) := by
  rw [slice, Array.toList_extract, List.extract_eq_take_drop, toList]

theorem slice_cons {b : UInt8} (hb : p.byte? pc = some b) (hstop : pc < stop) :
    p.slice pc stop = b :: p.slice (pc + 1) stop := by
  have hin := lt_size_of_byte? hb
  have hget : p.toList.drop pc = b :: p.toList.drop (pc + 1) := by
    obtain ⟨hlt, rfl⟩ := Array.getElem?_eq_some_iff.1 hb
    exact List.drop_eq_getElem_cons (l := p.toList) hlt
  rw [slice_eq, slice_eq, hget, show stop - pc = stop - (pc + 1) + 1 by omega, List.take_succ_cons]

theorem length_slice (hstop : stop ≤ p.size) : (p.slice pc stop).length = stop - pc := by
  have hsize : p.toList.length = p.size := Array.length_toList
  rw [slice_eq, List.length_take, List.length_drop, hsize]
  omega

theorem drop_eq_slice_append (hstop : pc ≤ stop) :
    p.toList.drop pc = p.slice pc stop ++ p.toList.drop stop := by
  rw [slice_eq, show stop = pc + (stop - pc) by omega, ← List.drop_drop, Nat.add_sub_cancel_left]
  exact (List.take_append_drop _ _).symm

theorem take_eq_take_append_slice (hstop : pc ≤ stop) :
    p.toList.take stop = p.toList.take pc ++ p.slice pc stop := by
  rw [slice_eq, show stop = pc + (stop - pc) by omega, List.take_add, Nat.add_sub_cancel_left]

theorem slice_size (p : Program) (pc : Nat) : p.slice pc p.size = p.toList.drop pc := by
  have hsize : p.toList.length = p.size := Array.length_toList
  rw [slice_eq, List.take_of_length_le (Nat.le_of_eq (by rw [List.length_drop, hsize]))]

def HoldsAt (p : Program) : Nat → List UInt8 → Prop
  | _, [] => True
  | pc, b :: bs => p.byte? pc = some b ∧ p.HoldsAt (pc + 1) bs

theorem holdsAt_append {a b : List UInt8} :
    p.HoldsAt pc (a ++ b) ↔ p.HoldsAt pc a ∧ p.HoldsAt (pc + a.length) b := by
  induction a generalizing pc with
  | nil => simp [HoldsAt]
  | cons x a ih =>
    simp only [List.cons_append, HoldsAt, ih, List.length_cons, and_assoc]
    rw [show pc + 1 + a.length = pc + (a.length + 1) by omega]

theorem holdsAt_ofList (bytes : List UInt8) : (ofList bytes).HoldsAt 0 bytes := by
  have h (pre rest : List UInt8) : (ofList (pre ++ rest)).HoldsAt pre.length rest := by
    induction rest generalizing pre with
    | nil => trivial
    | cons b rest ih =>
      refine ⟨by simp [ofList, byte?], ?_⟩
      simpa using ih (pre ++ [b])
  exact h [] bytes

theorem opcode?_of_holdsAt {op : Opcode} {rest : List UInt8}
    (h : p.HoldsAt pc (op.byte :: rest)) : p.opcode? pc = some op := by
  rw [opcode?_of_byte? h.1, Opcode.ofByte?_byte]

theorem slice_of_holdsAt {bytes : List UInt8} (h : p.HoldsAt pc bytes) :
    p.slice pc (pc + bytes.length) = bytes := by
  induction bytes generalizing pc with
  | nil => rw [slice_eq, List.length_nil, Nat.add_zero, Nat.sub_self, List.take_zero]
  | cons b bytes ih =>
    have hend : pc + (b :: bytes).length = pc + 1 + bytes.length := by
      rw [List.length_cons]
      omega
    rw [hend, slice_cons h.1 (by omega), ih h.2]

/-- Bytes that a program holds are inside it. -/
theorem le_size_of_holdsAt {bytes : List UInt8} (h : p.HoldsAt pc bytes) (hne : bytes ≠ []) :
    pc + bytes.length ≤ p.size := by
  induction bytes generalizing pc with
  | nil => exact absurd rfl hne
  | cons b bytes ih =>
    have hin := lt_size_of_byte? h.1
    cases bytes with
    | nil => exact hin
    | cons b' bytes =>
      have := ih h.2 (List.cons_ne_nil _ _)
      simp only [List.length_cons] at this ⊢
      omega

end PixelCode.Program
