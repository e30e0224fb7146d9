import PixelCode.Proofs.Machine.Reports

/-! A scope takes one exception. It is fresh when it is opened and spent once an exception was routed to it,
and stays so until it is closed, whatever is opened and closed inside it. -/
namespace PixelCode

namespace Event

def isHandled : Event → Bool
  | handled .. => true
  | _ => false

def opensScope : Event → Bool
  | dispatched _ .openTry _ => true
  | _ => false

private theorem isHandled_of_isPlain {e : Event} (h : e.isPlain = true) : e.isHandled = false := by
  cases e <;> first | rfl | cases h

end Event

namespace Machine

def fresh (m : Machine) : Nat := m.scopes.countP fun s => !s.spent

def scopeAt (m : Machine) (level : Nat) : Option Scope := m.scopes.reverse[level]?

/-- The next instruction routes an exception to the scope with `level` scopes around it, which is the
innermost one then. -/
def RoutesTo (p : Program) (m : Machine) (level : Nat) : Prop :=
  ∃ b m' events text, p.byte? m.pc = some b ∧ m.dispatch p b = .next m' events text ∧
    (∃ e ∈ events, e.isHandled = true) ∧ m'.scopes.length = level + 1

variable {p : Program} {m m' m₁ : Machine} {events : List Event} {text : String} {n level : Nat}

section Balance

/-- The scope that takes an exception was fresh, besides the fresh ones around it. -/
theorem Takes.fresh_lt {e : Exception} {scope : Scope} {outer scopes : List Scope} {target : Nat}
    (h : Takes p e scope outer target scopes) :
    (outer.countP fun s => !s.spent) < scopes.countP fun s => !s.spent := by
  induction h with
  | here fresh => simp [fresh]
  | further _ _ ih =>
    rw [List.countP_cons]
    omega

private theorem Escapes.fresh_le {e : Exception} {cause : Fault.Cause} {rest scopes : List Scope}
    (h : Escapes p e cause rest scopes) :
    (rest.countP fun s => !s.spent) ≤ scopes.countP fun s => !s.spent := by
  induction h with
  | unhandled => exact Nat.le_refl _
  | broken => exact Nat.le_refl _
  | further _ _ ih =>
    rw [List.countP_cons]
    omega

/-- Only the start of a scope makes a fresh scope. -/
theorem Move.fresh_le (h : Move p m m') :
    m'.fresh ≤ m.fresh + if p.opcode? m.pc = some .openTry then 1 else 0 := by
  cases h with
  | plain | store | define | call | ret => exact Nat.le_add_right _ _
  | openTry clause op => simp [fresh, op]
  | enter scope outer accepts op inside open_ => simp [fresh, List.countP_cons, open_]
  | pass scope outer accepts q op inside open_ => simp [fresh, List.countP_cons, open_]
  | endTry => exact Nat.le_add_right_of_le (List.countP_tail_le _)
  | raise scope outer target op taken =>
    have hlt := taken.fresh_lt
    simp only [fresh, List.countP_cons, Bool.not_true, Bool.false_eq_true, if_false]
    omega

/-- What starts a scope reports it. -/
theorem dispatch_opensScope {b : UInt8} (hb : p.byte? m.pc = some b) (hop : p.opcode? m.pc = some .openTry)
    (h : m.dispatch p b = .next m' events text) : 0 < events.countP Event.opensScope := by
  rw [Program.opcode?_of_byte? hb] at hop
  simp only [dispatch, hop] at h
  obtain ⟨rest, -, rfl⟩ := after_eq_next h
  exact List.countP_pos_iff.2 ⟨_, List.mem_cons_self, rfl⟩

private theorem countP_isHandled_of_isPlain (h : ∀ e ∈ events, e.isPlain = true) :
    events.countP Event.isHandled = 0 :=
  List.countP_eq_zero.2 fun e he => by simp [Event.isHandled_of_isPlain (h e he)]

/-- An instruction that routes an exception uses up a fresh scope, and one that makes a fresh scope is the
start of one. -/
theorem dispatch_balance {b : UInt8} (hb : p.byte? m.pc = some b)
    (h : m.dispatch p b = .next m' events text) :
    events.countP Event.isHandled + m'.fresh ≤ events.countP Event.opensScope + m.fresh := by
  have hfresh := (dispatch_move hb h).fresh_le
  have hopens := dispatch_opensScope hb (h := h)
  cases dispatch_reports hb h with
  | plain hplain =>
    rw [countP_isHandled_of_isPlain hplain]
    split at hfresh
    next hop =>
      have hpos := hopens hop
      omega
    next => omega
  | @raised op scope outer target op_eq divides taken left =>
    have hlt : (outer.countP fun s => !s.spent) < m.fresh := taken.fresh_lt
    have hleft : m'.fresh = outer.countP fun s => !s.spent := by
      rw [left]
      simp [fresh]
    rw [hleft, Nat.add_comm]
    exact Nat.le_add_left_of_le hlt
  | entered op =>
    rw [op, if_neg nofun] at hfresh
    exact Nat.add_le_add (Nat.zero_le _) hfresh

private theorem Path.balance (h : Path p n m events text m₁) :
    events.countP Event.isHandled + m₁.fresh ≤ events.countP Event.opensScope + m.fresh := by
  induction h with
  | refl m => exact Nat.le_refl _
  | step fetch next _ ih =>
    have hstep := dispatch_balance fetch next
    simp only [List.countP_append]
    omega

/-- A failing instruction routes no exception and makes no fresh scope. -/
theorem Failure.balance {cause : Fault.Cause} (h : Failure p m m' events cause) :
    events.countP Event.isHandled = 0 ∧ m'.fresh ≤ m.fresh := by
  cases h with
  | unended scope outer op inside open_ => exact ⟨rfl, by simp [fresh, List.countP_cons, open_]⟩
  | escape rest op_eq divides escapes => exact ⟨rfl, escapes.fresh_le⟩
  | _ => exact ⟨rfl, Nat.le_refl _⟩

private theorem stop_balance {b : UInt8} (hb : p.byte? m.pc = some b)
    (h : m.dispatch p b = .stop m' events) :
    events.countP Event.isHandled = 0 ∧ m'.fresh ≤ m.fresh := by
  refine ⟨countP_isHandled_of_isPlain (dispatch_stop_isPlain h), ?_⟩
  obtain ⟨exit, hlast, hending⟩ := last_of_stop hb h
  cases hlast with
  | faulted => cases hending
  | _ => exact Nat.le_refl _

end Balance

section Levels

private theorem reverse_cons_getElem? (s : Scope) (outer : List Scope) (level : Nat) :
    (s :: outer).reverse[level]? = if level = outer.length then some s else outer.reverse[level]? := by
  rw [List.reverse_cons, List.getElem?_append, List.length_reverse]
  rcases Nat.lt_trichotomy level outer.length with hlt | rfl | hgt
  · rw [if_pos hlt, if_neg (Nat.ne_of_lt hlt)]
  · simp
  · have hnone : outer.reverse[level]? = none := List.getElem?_eq_none (by rw [List.length_reverse]; omega)
    have hafter : [s][level - outer.length]? = none :=
      List.getElem?_eq_none (by rw [List.length_singleton]; omega)
    rw [if_neg (Nat.not_lt_of_gt hgt), if_neg (Nat.ne_of_gt hgt), hafter, hnone]

private theorem lt_of_scopeAt {s : Scope} (h : m.scopeAt level = some s) :
    level < m.scopes.length := by
  have hlt := (List.getElem?_eq_some_iff.1 h).1
  rwa [List.length_reverse] at hlt

private theorem Takes.exists_append {e : Exception} {scope : Scope} {outer scopes : List Scope}
    {target : Nat}
    (h : Takes p e scope outer target scopes) : ∃ inner, scopes = inner ++ scope :: outer := by
  induction h with
  | here => exact ⟨[], rfl⟩
  | @further s rest _ _ ih =>
    obtain ⟨inner, rfl⟩ := ih
    exact ⟨s :: inner, rfl⟩

/-- What stands in the scope that takes an exception, and around it, keeps its level. -/
theorem Takes.getElem?_reverse {e : Exception} {scope : Scope} {outer scopes : List Scope} {target : Nat}
    (h : Takes p e scope outer target scopes) (hlevel : level ≤ outer.length) :
    scopes.reverse[level]? = (scope :: outer).reverse[level]? := by
  obtain ⟨inner, rfl⟩ := h.exists_append
  rw [List.reverse_append, List.getElem?_append_left]
  simp only [List.length_reverse, List.length_cons]
  omega

/-- Another record in place of the innermost scope keeps every level spent if it is spent itself. -/
theorem exists_spent_replaced {s scope scope' : Scope} {outer : List Scope}
    (hs : (scope :: outer).reverse[level]? = some s) (hspent : s.spent = true)
    (hkeeps : scope.spent = true → scope'.spent = true) :
    ∃ s', (scope' :: outer).reverse[level]? = some s' ∧ s'.spent = true := by
  rw [reverse_cons_getElem?] at hs ⊢
  by_cases hinnermost : level = outer.length
  · rw [if_pos hinnermost] at hs ⊢
    cases hs
    exact ⟨scope', rfl, hkeeps hspent⟩
  · rw [if_neg hinnermost] at hs ⊢
    exact ⟨s, hs, hspent⟩

/-- A spent scope stays spent until it is closed. -/
theorem Move.spent {s : Scope} (h : Move p m m') (hs : m.scopeAt level = some s) (hspent : s.spent = true)
    (hopen : level < m'.scopes.length) : ∃ s', m'.scopeAt level = some s' ∧ s'.spent = true := by
  have hlt := lt_of_scopeAt hs
  unfold scopeAt at hs ⊢
  cases h with
  | plain | store | define | call | ret => exact ⟨s, hs, hspent⟩
  | openTry clause op found =>
    rw [reverse_cons_getElem?, if_neg (Nat.ne_of_lt hlt)]
    exact ⟨s, hs, hspent⟩
  | enter scope outer accepts op inside open_ =>
    rw [open_] at hs
    exact exists_spent_replaced hs hspent id
  | pass scope outer accepts q op inside open_ =>
    rw [open_] at hs
    exact exists_spent_replaced hs hspent id
  | endTry =>
    cases hscopes : m.scopes with
    | nil => simp [hscopes] at hlt
    | cons first outer =>
      rw [hscopes, reverse_cons_getElem?] at hs
      simp only [hscopes, List.tail_cons] at hopen ⊢
      rw [if_neg (Nat.ne_of_lt hopen)] at hs
      exact ⟨s, hs, hspent⟩
  | raise scope outer target op taken =>
    rw [taken.getElem?_reverse (Nat.le_of_lt_succ hopen)] at hs
    exact exists_spent_replaced hs hspent fun _ => rfl

/-- What a run keeps open at a level from one time to another is spent at the end if it was at the start. -/
theorem spent_while_open {s : Scope} {k : Nat} (hk : initial.later p k = some m₁)
    (hs : m₁.scopeAt level = some s) (hspent : s.spent = true) (hkn : k ≤ n)
    (hopen : ∀ j m₂, k < j → j ≤ n → initial.later p j = some m₂ → level < m₂.scopes.length)
    (hm : initial.later p n = some m) : ∃ s', m.scopeAt level = some s' ∧ s'.spent = true := by
  induction hkn generalizing m with
  | refl =>
    rw [hk] at hm
    cases hm
    exact ⟨s, hs, hspent⟩
  | @step n hkn ih =>
    obtain ⟨before, hbefore, hadvance⟩ := Option.bind_eq_some_iff.1 hm
    obtain ⟨s', hs', hspent'⟩ :=
      ih (fun j m₂ hkj hj => hopen j m₂ hkj (Nat.le_succ_of_le hj)) hbefore
    exact (move_of_advance hadvance).spent hs' hspent'
      (hopen (n + 1) m (Nat.lt_succ_of_le hkn) (Nat.le_refl _) hm)

/-- The scope that an exception is routed to was fresh before, and is spent behind it. -/
theorem RoutesTo.spends (h : m.RoutesTo p level) :
    (∃ s, m.scopeAt level = some s ∧ s.spent = false) ∧
      ∃ m' s, m.advance p = some m' ∧ m'.scopeAt level = some s ∧ s.spent = true := by
  obtain ⟨b, m', events, text, hb, hnext, ⟨e, he, hhandled⟩, hlength⟩ := h
  cases dispatch_reports hb hnext with
  | plain hplain =>
    rw [Event.isHandled_of_isPlain (hplain e he)] at hhandled
    cases hhandled
  | @raised op scope outer target op_eq divides taken left =>
    have hlevel : level = outer.length := by
      rw [left] at hlength
      exact (Nat.succ.inj hlength).symm
    refine ⟨⟨scope, ?_, taken.found.1⟩, m', { scope with spent := true }, advance_of_next hb hnext, ?_, rfl⟩
    · rw [scopeAt, taken.getElem?_reverse (Nat.le_of_eq hlevel), reverse_cons_getElem?, if_pos hlevel]
    · rw [left, scopeAt, reverse_cons_getElem?, if_pos hlevel]
  | entered =>
    simp only [List.mem_cons, List.not_mem_nil, or_false] at he
    rcases he with rfl | rfl <;> cases hhandled

end Levels

/-- Every scope takes at most one exception. At every head of the loop, and behind the instruction that ends
the run, the exceptions that were handled and the scopes that are still fresh are together no more than the
scopes that were started. An exception is routed to a level at which a spent scope stood before only if that
scope was closed in between, and leaves the scope it is routed to spent. -/
theorem scopes_take_one_exception (p : Program) (n : Nat) (events : List Event) (text : String) (m : Machine)
    (h : Path p n initial events text m) :
    events.countP Event.isHandled + m.fresh ≤ events.countP Event.opensScope ∧
    (∀ b m' last, p.byte? m.pc = some b →
      (m.dispatch p b = .stop m' last ∨ ∃ cause, m.dispatch p b = .fault m' last cause) →
        (events ++ last).countP Event.isHandled + m'.fresh ≤ events.countP Event.opensScope) ∧
    ∀ level, m.RoutesTo p level →
      (∀ k m₁ s, k ≤ n → initial.later p k = some m₁ → m₁.scopeAt level = some s → s.spent = true →
        ∃ j m₂, k < j ∧ j ≤ n ∧ initial.later p j = some m₂ ∧ m₂.scopes.length ≤ level) ∧
      ∃ m' s, m.advance p = some m' ∧ m'.scopeAt level = some s ∧ s.spent = true := by
  have hbalance : events.countP Event.isHandled + m.fresh ≤ events.countP Event.opensScope := h.balance
  refine ⟨hbalance, fun b m' last hb hlast => ?_, fun level hroutes => ⟨?_, hroutes.spends.2⟩⟩
  · have hend : last.countP Event.isHandled = 0 ∧ m'.fresh ≤ m.fresh := by
      rcases hlast with hstop | ⟨cause, hfault⟩
      · exact stop_balance hb hstop
      · exact (dispatch_failure hb hfault).balance
    rw [List.countP_append]
    omega
  · intro k m₁ s hkn hk hs hspent
    refine Classical.byContradiction fun hnever => ?_
    have hopen : ∀ j m₂, k < j → j ≤ n → initial.later p j = some m₂ → level < m₂.scopes.length :=
      fun j m₂ hkj hj hm₂ => Nat.lt_of_not_le fun hclosed => hnever ⟨j, m₂, hkj, hj, hm₂, hclosed⟩
    obtain ⟨s', hs', hspent'⟩ :=
      spent_while_open hk hs hspent hkn hopen (later_eq_some_iff.2 ⟨events, text, h⟩)
    obtain ⟨s'', hs'', hfresh⟩ := hroutes.spends.1
    rw [hs'] at hs''
    cases hs''
    rw [hspent'] at hfresh
    cases hfresh

/-- Three scopes, one in another and the third in the clause of the second. An exception is raised in each, and
one more where the second is spent. -/
def threeRaised : Program :=
  .ofList [0x70, 0x70, 0x01, 0, 0x03, 0x13, 0x71, 0, 0x70, 0x01, 0, 0x03, 0x13, 0x71, 0, 0x72,
    0x01, 0, 0x03, 0x13, 0x72, 0x71, 0, 0x72]

private theorem threeRaised_later :
    ∃ m, initial.later threeRaised 14 = some m ∧ m.pc = 19 ∧ m.fresh = 1 ∧
      (m.scopeAt 1).any (·.spent) = true := by
  have hlater : (initial.later threeRaised 14).any (fun m => decide (m.pc = 19 ∧ m.fresh = 1 ∧
      (m.scopeAt 1).any (·.spent) = true)) = true := by
    decide +kernel
  obtain ⟨m, hm, hstate⟩ := (Option.any_eq_true _ _).1 hlater
  exact ⟨m, hm, of_decide_eq_true hstate⟩

/-- Before the last exception is raised one scope is fresh, and the spent one inside it will not take it. -/
theorem scopes_take_one_exception_threeRaised :
    ∃ events text m, Path threeRaised 14 initial events text m ∧ m.pc = 19 ∧ m.fresh = 1 ∧
      events.countP Event.isHandled + 1 ≤ events.countP Event.opensScope ∧ ¬ m.RoutesTo threeRaised 1 := by
  obtain ⟨m, hm, hpc, hfresh, hspent⟩ := threeRaised_later
  obtain ⟨s, hs, hspent⟩ := (Option.any_eq_true _ _).1 hspent
  obtain ⟨events, text, hpath⟩ := later_eq_some_iff.1 hm
  obtain ⟨hbalance, -, hroutes⟩ := scopes_take_one_exception threeRaised 14 events text m hpath
  refine ⟨events, text, m, hpath, hpc, hfresh, hfresh ▸ hbalance, fun hinner => ?_⟩
  obtain ⟨j, m₂, hlt, hle, -⟩ := (hroutes 1 hinner).1 14 m s (Nat.le_refl _) hm hs hspent
  omega

end Machine
end PixelCode
