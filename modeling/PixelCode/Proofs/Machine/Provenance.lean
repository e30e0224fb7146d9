import PixelCode.Proofs.Machine.Alignment

/-! Where the contents of the state come from. The tables hold what the run wrote to them last, whatever
exceptions and returns came after it, and each return address and open scope goes back to the instruction
that made it. -/
namespace PixelCode.Machine

structure Stores (p : Program) (m : Machine) (id : UInt8) (v : Float) : Prop where
  op : p.opcode? m.pc = some .store
  operand : p.byte? (m.pc + 1) = some id
  top : m.stack.top? = some v

structure Defines (p : Program) (m : Machine) (id : UInt8) (entry : Nat) : Prop where
  op : p.opcode? m.pc = some .func
  operand : p.byte? (m.pc + 1) = some id
  body : entry = m.pc + 2
  ended : ∃ ret, p.firstReturn? entry = some ret

variable {p : Program} {m m' : Machine} {n : Nat} {id : UInt8}

section Tables
variable {α : Type} {writes : Machine → UInt8 → α → Prop} {table : Machine → Slots α} {a b : α}

def WritesAt (p : Program) (writes : Machine → UInt8 → α → Prop) (k : Nat) (id : UInt8) (a : α) : Prop :=
  ∃ m, initial.later p k = some m ∧ writes m id a

/-- Of the first `n` instructions of a run, the last one that writes to a slot writes `a`. -/
def LastWrite (p : Program) (writes : Machine → UInt8 → α → Prop) (n : Nat) (id : UInt8) (a : α) : Prop :=
  ∃ k < n, WritesAt p writes k id a ∧ ∀ j b, k < j → j < n → ¬ WritesAt p writes j id b

def Unwritten (p : Program) (writes : Machine → UInt8 → α → Prop) (n : Nat) (id : UInt8) : Prop :=
  ∀ k < n, ∀ b, ¬ WritesAt p writes k id b

/-- A table that is empty at the start, and changes by nothing but writes. -/
structure Records (p : Program) (writes : Machine → UInt8 → α → Prop) (table : Machine → Slots α) :
    Prop where
  start : ∀ id, (table initial).get? id = none
  unique : ∀ {m id a b}, writes m id a → writes m id b → a = b
  written : ∀ {m m' id a}, m.advance p = some m' → writes m id a → (table m').get? id = some a
  kept : ∀ {m m' id}, m.advance p = some m' → (∀ a, ¬ writes m id a) →
    (table m').get? id = (table m).get? id

private theorem LastWrite.not_unwritten (h : LastWrite p writes n id a) :
    ¬ Unwritten p writes n id := by
  obtain ⟨k, hk, hwrites, -⟩ := h
  intro hnone
  exact hnone k hk a hwrites

private theorem writesAt_iff (hm : initial.later p n = some m) :
    WritesAt p writes n id a ↔ writes m id a := by
  constructor
  · rintro ⟨m', hm', hwrites⟩
    rw [hm] at hm'
    exact Option.some.inj hm' ▸ hwrites
  · exact fun hwrites => ⟨m, hm, hwrites⟩

/-- A write is the last one for as long as no other follows. -/
theorem LastWrite.succ (h : LastWrite p writes n id a) (hnone : ∀ b, ¬ WritesAt p writes n id b) :
    LastWrite p writes (n + 1) id a := by
  obtain ⟨k, hk, hwrites, hlater⟩ := h
  refine ⟨k, Nat.lt_succ_of_lt hk, hwrites, fun j b hkj hj => ?_⟩
  rcases Nat.lt_succ_iff_lt_or_eq.1 hj with hj | rfl
  · exact hlater j b hkj hj
  · exact hnone b

theorem Unwritten.succ (h : Unwritten p writes n id) (hnone : ∀ b, ¬ WritesAt p writes n id b) :
    Unwritten p writes (n + 1) id := by
  intro k hk b
  rcases Nat.lt_succ_iff_lt_or_eq.1 hk with hk | rfl
  · exact h k hk b
  · exact hnone b

/-- A slot holds what was written to it last, or is empty and was never written to. -/
theorem Records.written_or_empty (h : Records p writes table) (hm : initial.later p n = some m)
    (id : UInt8) :
    (∃ a, (table m).get? id = some a ∧ LastWrite p writes n id a) ∨
      (table m).get? id = none ∧ Unwritten p writes n id := by
  induction n generalizing m with
  | zero =>
    cases hm
    exact .inr ⟨h.start id, fun k hk => absurd hk (Nat.not_lt_zero k)⟩
  | succ n ih =>
    obtain ⟨before, hbefore, hadvance⟩ := Option.bind_eq_some_iff.1 hm
    by_cases hwrites : ∃ a, writes before id a
    · obtain ⟨a, hwrites⟩ := hwrites
      refine .inl ⟨a, h.written hadvance hwrites, n, Nat.lt_succ_self n, ⟨before, hbefore, hwrites⟩, ?_⟩
      intro j b hnj hj
      omega
    · have hnone : ∀ a, ¬ writes before id a := not_exists.1 hwrites
      have hnoneAt : ∀ b, ¬ WritesAt p writes n id b := fun b => mt (writesAt_iff hbefore).1 (hnone b)
      rw [h.kept hadvance hnone]
      rcases ih hbefore with ⟨a, hget, hlast⟩ | ⟨hget, hunwritten⟩
      · exact .inl ⟨a, hget, hlast.succ hnoneAt⟩
      · exact .inr ⟨hget, hunwritten.succ hnoneAt⟩

private theorem Records.get?_eq_none_iff (h : Records p writes table)
    (hm : initial.later p n = some m) : (table m).get? id = none ↔ Unwritten p writes n id := by
  rcases h.written_or_empty hm id with ⟨a, hget, hlast⟩ | ⟨hget, hunwritten⟩
  · simp [hget, hlast.not_unwritten]
  · simp [hget, hunwritten]

private theorem Records.lastWrite_unique (h : Records p writes table)
    (ha : LastWrite p writes n id a) (hb : LastWrite p writes n id b) : a = b := by
  obtain ⟨k, hk, hka, hlaterA⟩ := ha
  obtain ⟨j, hj, hjb, hlaterB⟩ := hb
  rcases Nat.lt_trichotomy k j with hlt | rfl | hlt
  · exact absurd hjb (hlaterA j b hlt hj)
  · obtain ⟨m, hm, hwrites⟩ := hka
    exact h.unique hwrites ((writesAt_iff hm).1 hjb)
  · exact absurd hka (hlaterB k a hlt hk)

private theorem Records.get?_eq_some_iff (h : Records p writes table)
    (hm : initial.later p n = some m) : (table m).get? id = some a ↔ LastWrite p writes n id a := by
  rcases h.written_or_empty hm id with ⟨b, hget, hlast⟩ | ⟨hget, hunwritten⟩
  · rw [hget, Option.some.injEq]
    constructor
    · rintro rfl
      exact hlast
    · exact fun ha => h.lastWrite_unique hlast ha
  · rw [hget]
    exact ⟨nofun, fun ha => absurd hunwritten ha.not_unwritten⟩

end Tables

section Writers

theorem Stores.advance {v : Float} (h : Stores p m id v) :
    m.advance p = some { m with pc := m.pc + 2, stack := m.stack.pop, vars := m.vars.set id v } := by
  apply advance_of_next (Program.byte?_of_opcode? h.op)
  show (store p { m with pc := m.pc + 1 }).after (.dispatched m.pc .store m.stack.size) = _
  simp only [store, withOperand, withTop, h.operand, h.top]
  rfl

theorem Defines.advance {entry : Nat} (h : Defines p m id entry) :
    ∃ ret, m.advance p = some { m with pc := ret + 1, functions := m.functions.set id entry } := by
  obtain ⟨hop, hid, rfl, ret, hret⟩ := h
  refine ⟨ret, ?_⟩
  apply advance_of_next (Program.byte?_of_opcode? hop)
  show (define p { m with pc := m.pc + 1 }).after (.dispatched m.pc .func m.stack.size) = _
  simp only [define, withOperand, hid, hret]
  rfl

/-- Of all moves only a store changes a variable. -/
theorem Move.vars (h : Move p m m') (hkeeps : ∀ v, ¬ Stores p m id v) :
    m'.vars.get? id = m.vars.get? id := by
  cases h with
  | store id' v op operand top =>
    have hne : id ≠ id' := by
      rintro rfl
      exact hkeeps v ⟨op, operand, top⟩
    rw [Slots.get?_set, if_neg hne]
  | _ => rfl

/-- Of all moves only a definition changes the table of functions. -/
theorem Move.functions (h : Move p m m') (hkeeps : ∀ entry, ¬ Defines p m id entry) :
    m'.functions.get? id = m.functions.get? id := by
  cases h with
  | define id' ret op operand found =>
    have hne : id ≠ id' := by
      rintro rfl
      exact hkeeps _ ⟨op, operand, rfl, ret, found⟩
    rw [Slots.get?_set, if_neg hne]
  | _ => rfl

private theorem records_vars (p : Program) : Records p (Stores p) Machine.vars where
  start := Slots.get?_empty
  unique ha hb := Option.some.inj (ha.top.symm.trans hb.top)
  written hadvance hstores := by
    rw [hstores.advance] at hadvance
    cases hadvance
    rw [Slots.get?_set, if_pos rfl]
  kept hadvance hkeeps := (move_of_advance hadvance).vars hkeeps

private theorem records_functions (p : Program) : Records p (Defines p) Machine.functions where
  start := Slots.get?_empty
  unique ha hb := ha.body.trans hb.body.symm
  written hadvance hdefines := by
    obtain ⟨ret, hret⟩ := hdefines.advance
    rw [hret] at hadvance
    cases hadvance
    rw [Slots.get?_set, if_pos rfl]
  kept hadvance hkeeps := (move_of_advance hadvance).functions hkeeps

/-- A function that is registered starts behind the operand of a definition on the walk, and its return is
found. -/
theorem LastWrite.definition {entry : Nat} (h : LastWrite p (Defines p) n id entry) :
    ∃ q ∈ p.walk 0, entry = q + 2 ∧ p.byte? q = some Opcode.func.byte ∧ p.byte? (q + 1) = some id ∧
      ∃ ret, p.firstReturn? entry = some ret := by
  obtain ⟨k, -, ⟨m, hm, hdefines⟩, -⟩ := h
  have hpc := (reachable_of_later hm).aligned.pc
  exact ⟨m.pc, hpc.mem_walk (Program.lt_size_of_opcode? hdefines.op), hdefines.body,
    Program.byte?_of_opcode? hdefines.op, hdefines.operand, hdefines.ended⟩

end Writers

section Sites

structure Sited (p : Program) (m : Machine) : Prop where
  calls : ∀ address ∈ m.calls.toList, ∃ q ∈ p.walk 0, address = q + 2 ∧ p.opcode? q = some .call
  scopes : ∀ s ∈ m.scopes, ∃ q ∈ p.walk 0,
    p.opcode? q = some .openTry ∧ p.firstClause? (q + 1) = some s.clause

/-- Every move keeps this. A raised exception cuts both stacks back, which leaves fewer to look at. -/
theorem Sited.move (h : Sited p m) (haligned : Aligned p m) (hmove : Move p m m') : Sited p m' := by
  cases hmove with
  | plain | store | define => exact { h with }
  | call id entry op =>
    have hsite : ∃ q ∈ p.walk 0, m.pc + 2 = q + 2 ∧ p.opcode? q = some .call :=
      ⟨m.pc, haligned.pc.mem_walk (Program.lt_size_of_opcode? op), rfl, op⟩
    refine { h with calls := ?_ }
    rw [Array.toList_push]
    exact List.forall_mem_append.2 ⟨h.calls, List.forall_mem_singleton.2 hsite⟩
  | ret address op back =>
    refine { h with calls := ?_ }
    rw [Array.toList_pop]
    exact fun a ha => h.calls a (List.dropLast_subset _ ha)
  | openTry clause op found =>
    have hsite := haligned.pc.mem_walk (Program.lt_size_of_opcode? op)
    exact { h with scopes := List.forall_mem_cons.2 ⟨⟨m.pc, hsite, op, found⟩, h.scopes⟩ }
  | enter scope outer accepts op inside open_ =>
    exact { h with scopes := List.forall_mem_cons.2 (List.forall_mem_cons.1 (open_ ▸ h.scopes)) }
  | pass scope outer accepts q op inside open_ =>
    exact { h with scopes := List.forall_mem_cons.2 (List.forall_mem_cons.1 (open_ ▸ h.scopes)) }
  | endTry => exact { h with scopes := fun s hs => h.scopes s (List.mem_of_mem_tail hs) }
  | raise scope outer target op taken =>
    obtain ⟨hmem, hsub⟩ := taken.mem
    refine ⟨?_, List.forall_mem_cons.2 ⟨h.scopes scope hmem, fun s hs => h.scopes s (hsub s hs)⟩⟩
    rw [Array.toList_shrink]
    exact fun a ha => h.calls a (List.mem_of_mem_take ha)

private theorem Reachable.sited (h : Reachable p m) : Sited p m := by
  have hboth : Aligned p m ∧ Sited p m := by
    refine h.invariant (P := fun m => Aligned p m ∧ Sited p m) ⟨.initial p, ⟨nofun, nofun⟩⟩ ?_
    exact fun hmove hm => ⟨hm.1.move hmove, hm.2.move hm.1 hmove⟩
  exact hboth.2

end Sites

/-- After any number of instructions, a variable holds what was stored in it last, and is unset if nothing was;
a function is registered where it was defined last; every return address stands behind a call; and every open
scope has the first clause of a scope that starts on the walk. -/
theorem contents_of_run (p : Program) (n : Nat) (m : Machine) (h : initial.later p n = some m) :
    (∀ id v, m.vars.get? id = some v ↔ LastWrite p (Stores p) n id v) ∧
    (∀ id, m.vars.get? id = none ↔ Unwritten p (Stores p) n id) ∧
    (∀ id entry, m.functions.get? id = some entry ↔ LastWrite p (Defines p) n id entry) ∧
    (∀ id entry, m.functions.get? id = some entry →
      ∃ q ∈ p.walk 0, entry = q + 2 ∧ p.byte? q = some Opcode.func.byte ∧ p.byte? (q + 1) = some id ∧
        ∃ ret, p.firstReturn? entry = some ret) ∧
    (∀ address ∈ m.calls.toList,
      ∃ q ∈ p.walk 0, address = q + 2 ∧ p.byte? q = some Opcode.call.byte) ∧
    (∀ s ∈ m.scopes, p.byte? s.clause = some Opcode.clause.byte ∧
      ∃ q ∈ p.walk 0, p.byte? q = some Opcode.openTry.byte ∧ p.firstClause? (q + 1) = some s.clause) := by
  have hreachable := reachable_of_later h
  have hvars := records_vars p
  have hfunctions := records_functions p
  refine ⟨fun id v => hvars.get?_eq_some_iff h, fun id => hvars.get?_eq_none_iff h,
    fun id entry => hfunctions.get?_eq_some_iff h, fun id entry hget => ?_, fun address haddress => ?_,
    fun s hs => ?_⟩
  · exact ((hfunctions.get?_eq_some_iff h).1 hget).definition
  · obtain ⟨q, hq, heq, hop⟩ := hreachable.sited.calls address haddress
    exact ⟨q, hq, heq, Program.byte?_of_opcode? hop⟩
  · obtain ⟨q, hq, hop, hfound⟩ := hreachable.sited.scopes s hs
    exact ⟨Program.byte?_of_opcode? (hreachable.aligned.scopes s hs).2, q, hq,
      Program.byte?_of_opcode? hop, hfound⟩

def keptStore : Program :=
  .ofList [0x52, 0, 0x70, 0x01, 7, 0x40, 2, 0x01, 0, 0x01, 0, 0x13, 0x71, 0, 0x72, 0x51,
    0x01, 5, 0x40, 2, 0x50, 0]

private theorem keptStore_later :
    ∃ m, initial.later keptStore 11 = some m ∧ m.pc = 14 ∧ m.calls = #[22] ∧
      (∃ s ∈ m.scopes, s.clause = 12 ∧ s.spent = true) ∧ m.functions.get? 0 = some 2 ∧
      (m.vars.get? 2).map Float.toBits = some (Float.toBits 7) := by
  have hlater : (initial.later keptStore 11).any (fun m => decide (m.pc = 14 ∧ m.calls = #[22] ∧
      (∃ s ∈ m.scopes, s.clause = 12 ∧ s.spent = true) ∧ m.functions.get? 0 = some 2 ∧
      (m.vars.get? 2).map Float.toBits = some (Float.toBits 7))) = true := by
    decide +kernel
  obtain ⟨m, hm, hcontents⟩ := (Option.any_eq_true _ _).1 hlater
  exact ⟨m, hm, of_decide_eq_true hcontents⟩

/-- In the clause that takes the exception the variable still has the value from inside the scope, and the
call and the scope that are in progress go back to their instructions. -/
theorem contents_of_run_keptStore :
    ∃ m v, initial.later keptStore 11 = some m ∧ v.toBits = Float.toBits 7 ∧
      LastWrite keptStore (Stores keptStore) 11 2 v ∧ LastWrite keptStore (Defines keptStore) 11 0 2 ∧
      (∃ q ∈ keptStore.walk 0, 22 = q + 2 ∧ keptStore.byte? q = some Opcode.call.byte) ∧
      ∃ q ∈ keptStore.walk 0, keptStore.byte? q = some Opcode.openTry.byte ∧
        keptStore.firstClause? (q + 1) = some 12 := by
  obtain ⟨m, hm, -, hcalls, ⟨s, hs, hclause, -⟩, hfunction, hvar⟩ := keptStore_later
  obtain ⟨hvars, -, hfunctions, -, haddresses, hscopes⟩ := contents_of_run keptStore 11 m hm
  obtain ⟨v, hv, hbits⟩ := Option.map_eq_some_iff.1 hvar
  exact ⟨m, v, hm, hbits, (hvars 2 v).1 hv, (hfunctions 0 2).1 hfunction,
    haddresses 22 (by simp [hcalls]), hclause ▸ (hscopes s hs).2⟩

end PixelCode.Machine
