import PixelCode.Machine.Sink
import PixelCode.Machine.Slots
import PixelCode.Machine.Stack

/-! The operand stack as a list, the tables as functions, and sinks as appenders. -/
namespace PixelCode

namespace Stack

@[simp] theorem toList_push (s : Stack) (v : Float) : (s.push v).toList = s.toList ++ [v] :=
  Array.toList_push

@[simp] theorem toList_pop (s : Stack) : s.pop.toList = s.toList.dropLast :=
  Array.toList_pop

@[simp] theorem toList_truncate (s : Stack) (depth : Nat) :
    (s.truncate depth).toList = s.toList.take depth := by
  simp [truncate, toList]

theorem size_eq (s : Stack) : s.size = s.toList.length :=
  Array.length_toList.symm

theorem top?_eq (s : Stack) : s.top? = s.toList.getLast? := by
  simp [top?, toList]

end Stack

namespace Slots
variable {α : Type}

private theorem get?_eq (s : Slots α) (id : UInt8) : s.get? id = s.cells[id.toFin] := rfl

@[simp] theorem get?_empty (id : UInt8) : (Slots.empty : Slots α).get? id = none := by
  simp [get?_eq, empty]

theorem get?_set (s : Slots α) (id id' : UInt8) (a : α) :
    (s.set id a).get? id' = if id' = id then some a else s.get? id' := by
  simp only [get?_eq, set, Fin.getElem_fin, Vector.getElem_set, UInt8.toFin_val, UInt8.toNat_inj,
    eq_comm]

@[ext] theorem ext {s t : Slots α} (h : ∀ id, s.get? id = t.get? id) : s = t := by
  obtain ⟨cells⟩ := s
  obtain ⟨cells'⟩ := t
  congr 1
  ext i hi : 1
  simpa [get?_eq, Nat.mod_eq_of_lt hi] using h (UInt8.ofNat i)

def map {β : Type} (f : α → β) (s : Slots α) : Slots β := ⟨s.cells.map (Option.map f)⟩

@[simp] theorem get?_map {β : Type} (f : α → β) (s : Slots α) (id : UInt8) :
    (s.map f).get? id = (s.get? id).map f := by
  simp [get?_eq, map]

theorem map_set {β : Type} (f : α → β) (s : Slots α) (id : UInt8) (a : α) :
    (s.set id a).map f = (s.map f).set id (f a) := by
  ext id' : 1
  simp only [get?_map, get?_set]
  split <;> rfl

theorem map_id (s : Slots α) : s.map id = s := by
  ext id' : 1
  simp

end Slots

namespace Sink

def append (s : Sink) (text : String) : Sink :=
  { s with received := s.received ++ text.toUTF8.data }

theorem writeText_of_room_none {s : Sink} (h : s.room = none) (text : String) :
    s.writeText text = (s.append text, none) := by
  simp [writeText, write, h, append]

theorem append_append (s : Sink) (a b : String) : (s.append a).append b = s.append (a ++ b) := by
  simp [append]

private theorem take_append (a b : Array UInt8) (room : Nat) :
    (a ++ b).take room = a.take room ++ b.take (room - a.size) := by
  simp only [Array.take_eq_extract, Array.extract_append]
  simp

private theorem write_empty (s : Sink) : s.write #[] = (s, none) := by
  cases s with
  | mk received room refusal flushFailure => cases room <;> simp [write]

/-- Bytes may be written in two parts. -/
theorem write_append (s : Sink) (a b : Array UInt8) :
    s.write (a ++ b) =
      match s.write a with
      | (s', none) => s'.write b
      | refused => refused := by
  cases hroom : s.room with
  | none => simp [write, hroom]
  | some room =>
    by_cases ha : a.size ≤ room
    · have hfits : (a ++ b).size ≤ room ↔ b.size ≤ room - a.size := by
        rw [Array.size_append]
        omega
      have htake : (a ++ b).take room = a ++ b.take (room - a.size) := by
        rw [take_append, Array.take_eq_extract, Array.extract_eq_self_of_le ha]
      by_cases hb : b.size ≤ room - a.size
      · simp only [write, hroom, if_pos ha, if_pos (hfits.2 hb), if_pos hb]
        simp [Nat.sub_sub]
      · simp only [write, hroom, if_pos ha, if_neg (mt hfits.1 hb), if_neg hb, htake]
        simp
    · have hfull : ¬ (a ++ b).size ≤ room := by
        rw [Array.size_append]
        omega
      have htake : (a ++ b).take room = a.take room := by
        rw [take_append, Nat.sub_eq_zero_of_le (Nat.le_of_not_le ha)]
        simp
      simp only [write, hroom, if_neg ha, if_neg hfull, htake]

theorem writeText_empty (s : Sink) : s.writeText "" = (s, none) := s.write_empty

theorem writeText_append (s : Sink) (text more : String) :
    s.writeText (text ++ more) =
      match s.writeText text with
      | (s', none) => s'.writeText more
      | refused => refused := by
  have hbytes : (text ++ more).toUTF8.data = text.toUTF8.data ++ more.toUTF8.data := by simp
  rw [writeText, hbytes, write_append]
  rfl

end Sink
end PixelCode
