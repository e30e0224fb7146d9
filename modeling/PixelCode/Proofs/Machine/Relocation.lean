import PixelCode.Proofs.Program.Embedding

/-! Instructions do the same wherever they stand: a program in which another one is embedded takes its
steps, with the positions that the state holds moved along. -/
namespace PixelCode

namespace Program

/-- Control goes over unknown bytes without a trace in the state. -/
theorem Slides.path {p : Program} {pc target : Nat} (h : p.Slides pc target) (m : Machine) :
    ∃ n events, Machine.Path p n { m with pc } events "" { m with pc := target } := by
  induction h with
  | refl pc => exact ⟨0, [], .refl _⟩
  | @skip pc target inside unknown rest ih =>
    obtain ⟨n, events, hrest⟩ := ih
    obtain ⟨b, hb⟩ := byte?_eq_some_of_lt inside
    have hnext : Machine.dispatch p { m with pc } b =
        .next { m with pc := pc + 1 } [.skipped pc b] "" := by
      rw [Machine.dispatch, ← opcode?_of_byte? hb, unknown]
    exact ⟨n + 1, _, .step hb hnext hrest⟩

end Program

namespace Embedding
open Machine Program

variable {p p' : Program} (e : Embedding p p')

def scope (s : Scope) : Scope := { s with clause := e.place s.clause }

def machine (m : Machine) (pc : Nat) : Machine where
  pc
  stack := m.stack
  vars := m.vars
  functions := m.functions.map e.resume
  calls := m.calls.map e.resume
  scopes := m.scopes.map e.scope
  unwinding := m.unwinding

/-- Both programs are in the instruction at `s`, with `k` of its operand bytes read. -/
structure Inside (s k : Nat) (m m' : Machine) : Prop where
  same : m' = e.machine m m'.pc
  pc : m.pc = s + (k + 1)
  pc' : m'.pc = e.place s + (k + 1)
  le : k ≤ p.operandCount s

inductive Follows (s : Nat) : Step → Step → Prop where
  | next {m m' : Machine} {events events' : List Event} {text : String}
      (same : m' = e.machine m m'.pc) (slides : p'.Slides m'.pc (e.place m.pc)) :
      Follows s (.next m events text) (.next m' events' text)
  | stop {m m' : Machine} {events events' : List Event} :
      Follows s (.stop m events) (.stop m' events')
  | fault {k : Nat} {m m' : Machine} {events events' : List Event} {cause : Fault.Cause}
      (inside : e.Inside s k m m') : Follows s (.fault m events cause) (.fault m' events' cause)
  | spared {m : Machine} {events : List Event} {cause : Fault.Cause} {step : Step}
      (spared : e.Spared cause) : Follows s (.fault m events cause) step

section Instruction
variable {e} {s k : Nat} {m m' : Machine} {events events' : List Event} {text : String}

theorem Follows.after {step step' : Step} (h : e.Follows s step step') (event event' : Event) :
    e.Follows s (step.after event) (step'.after event') := by
  cases h with
  | next same slides => exact .next same slides
  | stop => exact .stop
  | fault inside => exact .fault inside
  | spared spared => exact .spared spared

namespace Inside

theorem stack (h : e.Inside s k m m') (stack : Stack) :
    e.Inside s k { m with stack } { m' with stack } where
  same := by rw [h.same]; rfl
  pc := h.pc
  pc' := h.pc'
  le := h.le

theorem push (h : e.Inside s k m m') (v : Float) : e.Inside s k (m.push v) (m'.push v) := by
  have hstack : m'.stack = m.stack := by rw [h.same]; rfl
  rw [Machine.push, Machine.push, hstack]
  exact h.stack _

theorem withTop {f f' : Machine → Float → Step} (h : e.Inside s k m m')
    (hf : ∀ v stack, e.Follows s (f { m with stack } v) (f' { m' with stack } v)) :
    e.Follows s (m.withTop f) (m'.withTop f') := by
  have hstack : m'.stack = m.stack := by rw [h.same]; rfl
  unfold Machine.withTop
  rw [hstack]
  cases m.stack.top? with
  | none => exact .fault h
  | some v => exact hf v _

/-- The operand byte at the counter is read. -/
theorem read (h : e.Inside s k m m') (hk : k < p.operandCount s) :
    e.Inside s (k + 1) { m with pc := m.pc + 1 } { m' with pc := m'.pc + 1 } where
  same := by rw [h.same]; rfl
  pc := congrArg (· + 1) h.pc
  pc' := congrArg (· + 1) h.pc'
  le := hk

theorem withOperand {f f' : Machine → UInt8 → Step} (h : e.Inside s k m m') (hs : s ∈ p.walk 0)
    (hk : k < p.operandCount s)
    (hf : ∀ b, p.byte? (s + (k + 1)) = some b →
      e.Follows s (f { m with pc := m.pc + 1 } b) (f' { m' with pc := m'.pc + 1 } b)) :
    e.Follows s (m.withOperand p f) (m'.withOperand p' f') := by
  unfold Machine.withOperand
  cases hb : p.byte? m.pc with
  | none =>
    rcases e.missing_add hs hk (h.pc ▸ hb) with hnone | hspared
    · have hnone' : p'.byte? m'.pc = none := h.pc' ▸ hnone
      rw [hnone']
      exact .fault (h.read hk)
    · exact .spared hspared
  | some b =>
    have hb' : p'.byte? m'.pc = some b := h.pc' ▸ e.byte?_add hs hk (h.pc ▸ hb)
    rw [hb']
    exact hf b (h.pc ▸ hb)

theorem withOperands {count : Nat} {f f' : Machine → List UInt8 → Step} (h : e.Inside s k m m')
    (hs : s ∈ p.walk 0) (hk : k + count ≤ p.operandCount s) (hin : s + (k + 1) ≤ p.size)
    (hf : ∀ bs, s + (k + count + 1) ≤ p.size →
      e.Inside s (k + count) { m with pc := m.pc + count } { m' with pc := m'.pc + count } →
      e.Follows s (f { m with pc := m.pc + count } bs) (f' { m' with pc := m'.pc + count } bs)) :
    e.Follows s (Machine.withOperands p count m f) (Machine.withOperands p' count m' f') := by
  induction count generalizing k m m' f f' with
  | zero => exact hf [] hin h
  | succ count ih =>
    have hshift : ∀ n : Nat, n + 1 + count = n + (count + 1) := by omega
    refine h.withOperand hs (by omega) fun b hb => ?_
    refine ih (h.read (by omega)) (by omega) (lt_size_of_byte? hb) fun bs hle hinside => ?_
    simp only [hshift] at hle hinside ⊢
    exact hf (b :: bs) hle hinside

/-- An instruction that has read all its operands leaves control behind it. -/
theorem whole (h : e.Inside s k m m') (hs : s ∈ p.walk 0) (hnext : p.next s = s + (k + 1))
    (hle : s + (k + 1) ≤ p.size) :
    e.Follows s (.next m events text) (.next m' events' text) := by
  refine .next h.same ?_
  have hslides := e.slides_next hs (hnext ▸ hle)
  have hcount : e.place s + (k + 1) = e.place s + 1 + p.operandCount s := by
    unfold next at hnext
    omega
  rw [h.pc', h.pc, ← hnext, hcount]
  exact hslides

theorem print (h : e.Inside s 0 m m') (hs : s ∈ p.walk 0) (hnext : p.next s = s + 1)
    (f : Float → String) : e.Follows s (m.print f) (m'.print f) := by
  refine h.withTop fun v stack => ?_
  exact (h.stack stack).whole hs hnext (p.mem_walk_bounds 0 s hs).2

theorem binary (h : e.Inside s 0 m m') (hs : s ∈ p.walk 0) (hnext : p.next s = s + 1)
    (f : Float → Float → Float) : e.Follows s (m.binary f) (m'.binary f) := by
  refine h.withTop fun a stack => (h.stack stack).withTop fun b stack => ?_
  exact ((h.stack stack).push (f b a)).whole hs hnext (p.mem_walk_bounds 0 s hs).2

theorem raiseTo (h : e.Inside s 0 m m') (exception : Exception) {scopes : List Scope}
    (hscopes : ∀ scope ∈ scopes, scope.Aligned p) :
    e.Follows s (raiseTo p exception m scopes) (raiseTo p' exception m' (scopes.map e.scope)) := by
  induction scopes with
  | nil =>
    refine .fault (k := 0) { h with same := ?_ }
    rw [h.same]
    rfl
  | cons scope outer ih =>
    obtain ⟨⟨hclause, hop⟩, houter⟩ := List.forall_mem_cons.1 hscopes
    have ih := ih houter
    rw [Machine.raiseTo, List.map_cons, Machine.raiseTo]
    show e.Follows s (if scope.spent then _ else _) (if scope.spent then _ else _)
    split
    next => exact ih
    next =>
      rcases e.acceptingClause_place exception hclause hop with hfound | ⟨cause, herror, hspared⟩
      · have hfound' : p'.acceptingClause exception (e.scope scope).clause =
          (p.acceptingClause exception scope.clause).map (·.map e.place) := hfound
        rw [hfound']
        cases p.acceptingClause exception scope.clause with
        | error cause =>
          refine .fault (k := 0) { h with same := ?_ }
          rw [h.same]
          rfl
        | ok found =>
          cases found with
          | none => exact ih
          | some target =>
            refine .next ?_ (.refl _)
            rw [h.same]
            simp [machine, Embedding.scope]
      · rw [herror]
        exact .spared hspared

theorem raise (h : e.Inside s 0 m m') (exception : Exception)
    (hscopes : ∀ scope ∈ m.scopes, scope.Aligned p) :
    e.Follows s (m.raise p exception) (m'.raise p' exception) := by
  have hmoved : m'.scopes = m.scopes.map e.scope := by rw [h.same]; rfl
  refine Follows.after ?_ _ _
  rw [hmoved]
  exact h.raiseTo exception hscopes

theorem division (h : e.Inside s 0 m m') (hs : s ∈ p.walk 0) (hnext : p.next s = s + 1)
    (hscopes : ∀ scope ∈ m.scopes, scope.Aligned p) (f : Float → Float → Float) :
    e.Follows s (m.division p f) (m'.division p' f) := by
  refine h.withTop fun a stack => (h.stack stack).withTop fun b stack => ?_
  split
  next => exact (h.stack stack).raise _ hscopes
  next => exact ((h.stack stack).push (f b a)).whole hs hnext (p.mem_walk_bounds 0 s hs).2

theorem store (h : e.Inside s 0 m m') (hs : s ∈ p.walk 0) (hcount : p.operandCount s = 1) :
    e.Follows s (m.store p) (m'.store p') := by
  have hnext : p.next s = s + 2 := by rw [next, hcount]
  refine h.withOperand hs (by omega) fun id hid => ?_
  refine (h.read (by omega)).withTop fun v stack => ?_
  have hdone := (h.read (by omega)).stack stack
  refine whole (k := 1) { hdone with same := ?_ } hs hnext (lt_size_of_byte? hid)
  rw [h.same]
  rfl

theorem load (h : e.Inside s 0 m m') (hs : s ∈ p.walk 0) (hcount : p.operandCount s = 1) :
    e.Follows s (m.load p) (m'.load p') := by
  have hnext : p.next s = s + 2 := by rw [next, hcount]
  refine h.withOperand hs (by omega) fun id hid => ?_
  have hread := h.read (by omega)
  have hvars : m'.vars.get? id = m.vars.get? id := by rw [h.same]; rfl
  dsimp only
  rw [hvars]
  cases m.vars.get? id with
  | none => exact .fault hread
  | some v => exact (hread.push v).whole hs hnext (lt_size_of_byte? hid)

/-- Behind all operands both programs are at the same boundary. -/
theorem resume_eq (h : e.Inside s k m m') (hs : s ∈ p.walk 0) (hnext : p.next s = s + (k + 1))
    (hle : s + (k + 1) ≤ p.size) : p.Boundary m.pc ∧ m'.pc = e.resume m.pc := by
  have hleave := e.leave hs (hnext ▸ hle)
  rw [h.pc', h.pc, ← hnext, ← hleave]
  refine ⟨boundary_next hs (hnext ▸ hle), ?_⟩
  unfold next at hnext
  omega

theorem define (h : e.Inside s 0 m m') (hs : s ∈ p.walk 0) (hcount : p.operandCount s = 1) :
    e.Follows s (m.define p) (m'.define p') := by
  have hnext : p.next s = s + 2 := by rw [next, hcount]
  refine h.withOperand hs (by omega) fun id hid => ?_
  have hread := h.read (by omega)
  obtain ⟨hentry, hresume⟩ := hread.resume_eq hs hnext (lt_size_of_byte? hid)
  have hscan := e.firstReturn?_resume hentry
  rw [← hresume] at hscan
  dsimp only at hscan hresume hentry ⊢
  rcases hscan with hfound | ⟨hnone, hspared⟩
  · rw [hfound]
    cases hret : p.firstReturn? (m.pc + 1) with
    | none => exact .fault hread
    | some ret =>
      obtain ⟨hmem, hop⟩ := firstReturn?_eq_some hret
      have hmem := hentry.scan hmem
      refine .next ?_ ?_
      · dsimp only
        rw [hresume, h.same]
        simp only [machine, Slots.map_set]
      · have hcount := operandCount_of_opcode? hop (by decide)
        have hslides := e.slides_next hmem (by rw [next, hcount]; exact lt_size_of_opcode? hop)
        rw [next, hcount] at hslides
        exact hslides
  · rw [hnone]
    exact .spared hspared.1

theorem call (h : e.Inside s 0 m m') (hs : s ∈ p.walk 0) (hcount : p.operandCount s = 1)
    (hfunctions : ∀ id entry, m.functions.get? id = some entry → p.Boundary entry) :
    e.Follows s (m.call p) (m'.call p') := by
  have hnext : p.next s = s + 2 := by rw [next, hcount]
  refine h.withOperand hs (by omega) fun id hid => ?_
  have hread := h.read (by omega)
  obtain ⟨-, hresume⟩ := hread.resume_eq hs hnext (lt_size_of_byte? hid)
  have hget : m'.functions.get? id = (m.functions.get? id).map e.resume := by
    rw [h.same]
    exact Slots.get?_map _ _ _
  dsimp only at hresume ⊢
  rw [hget]
  cases hentry : m.functions.get? id with
  | none => exact .fault hread
  | some entry =>
    refine .next ?_ (e.slides (hfunctions id entry hentry))
    dsimp only
    rw [hresume, h.same]
    simp [machine]

theorem ret (h : e.Inside s 0 m m') (hcalls : ∀ address ∈ m.calls.toList, p.Boundary address) :
    e.Follows s m.ret m'.ret := by
  have hback : m'.calls.back? = m.calls.back?.map e.resume := by
    rw [h.same]
    simp [machine]
  unfold Machine.ret
  rw [hback]
  cases haddress : m.calls.back? with
  | none => exact .stop
  | some address =>
    have hmem : address ∈ m.calls.toList := Array.mem_toList_iff.2 (Array.mem_of_back? haddress)
    refine .next ?_ (e.slides (hcalls address hmem))
    dsimp only
    rw [h.same]
    simp [machine]

theorem openTry (h : e.Inside s 0 m m') (hs : s ∈ p.walk 0) (hcount : p.operandCount s = 0) :
    e.Follows s (m.openTry p) (m'.openTry p') := by
  have hnext : p.next s = s + 1 := by rw [next, hcount]
  have hin := (p.mem_walk_bounds 0 s hs).2
  obtain ⟨hbody, hresume⟩ := h.resume_eq hs hnext hin
  have hscan := e.firstClause?_resume hbody
  rw [← hresume] at hscan
  unfold Machine.openTry
  rcases hscan with hfound | ⟨hnone, hspared⟩
  · rw [hfound]
    cases p.firstClause? m.pc with
    | none => exact .fault h
    | some clause =>
      refine whole (k := 0) { h with same := ?_ } hs hnext hin
      rw [h.same]
      simp [machine, Embedding.scope]
  · rw [hnone]
    exact .spared hspared.2.1

theorem endTry (h : e.Inside s 0 m m') (hs : s ∈ p.walk 0) (hcount : p.operandCount s = 0) :
    e.Follows s m.endTry m'.endTry := by
  have hnext : p.next s = s + 1 := by rw [next, hcount]
  refine whole (k := 0) { h with same := ?_ } hs hnext (p.mem_walk_bounds 0 s hs).2
  rw [h.same]
  simp [machine]

theorem clause (h : e.Inside s 0 m m') (hs : s ∈ p.walk 0) (hop : p.opcode? s = some .clause) :
    e.Follows s (m.clause p) (m'.clause p') := by
  have hscopes : m'.scopes = m.scopes.map e.scope := by rw [h.same]; rfl
  have hunwinding : m'.unwinding = m.unwinding := by rw [h.same]; rfl
  unfold Machine.clause
  rw [hscopes]
  cases m.scopes with
  | nil => exact .fault h
  | cons scope outer =>
    refine h.withOperand hs (one_le_operandCount_of_clause hop) fun count hb => ?_
    have hcount := operandCount_of_clause hop hb
    have hnext := next_of_clause hop hb
    refine (h.read (by omega)).withOperands hs (by omega) (lt_size_of_byte? hb)
      fun accepts hle hread => ?_
    have hin : p.next s ≤ p.size := by omega
    dsimp only
    rw [hunwinding]
    split
    next =>
      refine whole { hread with same := ?_ } hs (by omega) hle
      rw [h.same]
      rfl
    next =>
      have hpc : m.pc + 1 + count.toNat = p.next s := by
        rw [h.pc, hnext]
      have hpc' : m'.pc + 1 + count.toNat = p'.next (e.place s) := by
        rw [h.pc', next, e.operandCount_place hs hin, hcount]
        omega
      have hscan := e.clauseEnd?_next hs
      rw [← hpc, ← hpc'] at hscan
      rcases hscan with hfound | ⟨hnone, hspared⟩
      · rw [hfound]
        cases p.clauseEnd? (m.pc + 1 + count.toNat) with
        | none =>
          refine .fault { hread with same := ?_ }
          rw [h.same]
          rfl
        | some q =>
          refine .next ?_ (.refl _)
          rw [h.same]
          rfl
      · rw [hnone]
        exact .spared hspared.2.2

end Inside

/-- Every instruction of a program in which `p` is embedded does what it does in `p`. -/
theorem dispatch_follows (e : Embedding p p') (hm : Aligned p m) {b : UInt8}
    (hb : p.byte? m.pc = some b) :
    e.Follows m.pc (m.dispatch p b) ((e.machine m (e.place m.pc)).dispatch p' b) := by
  have hs := hm.pc.mem_walk (lt_size_of_byte? hb)
  have hop := opcode?_of_byte? hb
  have h : e.Inside m.pc 0 { m with pc := m.pc + 1 } (e.machine m (e.place m.pc + 1)) :=
    { same := rfl, pc := rfl, pc' := rfl, le := Nat.zero_le _ }
  unfold dispatch
  cases hbyte : Opcode.ofByte? b with
  | none =>
    rw [hbyte] at hop
    exact h.whole hs (next_of_unknown hop) (lt_size_of_byte? hb)
  | some op =>
    rw [hbyte] at hop
    refine Follows.after ?_ _ _
    have hcount := fun hclause => operandCount_of_opcode? hop hclause
    have hnext := fun hclause => next_of_opcode? hop hclause
    show e.Follows m.pc (execute p { m with pc := m.pc + 1 } op)
      (execute p' (e.machine m (e.place m.pc + 1)) op)
    unfold execute
    cases op with
    | push =>
      refine h.withOperand hs (by rw [hcount (by decide)]; decide) fun v hv => ?_
      exact ((h.read (by rw [hcount (by decide)]; decide)).push _).whole hs (hnext (by decide))
        (lt_size_of_byte? hv)
    | pop =>
      refine h.withTop fun v stack => ?_
      exact (h.stack stack).whole hs (hnext (by decide)) (lt_size_of_byte? hb)
    | dup =>
      refine h.withTop fun v stack => ?_
      exact (((h.stack stack).push v).push v).whole hs (hnext (by decide)) (lt_size_of_byte? hb)
    | add | sub | mul | exp => exact h.binary hs (hnext (by decide)) _
    | div | mod => exact h.division hs (hnext (by decide)) hm.scopes _
    | halt => exact .stop
    | store => exact h.store hs (hcount (by decide))
    | load => exact h.load hs (hcount (by decide))
    | call => exact h.call hs (hcount (by decide)) hm.functions
    | ret => exact h.ret hm.calls
    | func => exact h.define hs (hcount (by decide))
    | printNum | printChar | printlnNum | printlnChar => exact h.print hs (hnext (by decide)) _
    | openTry => exact h.openTry hs (hcount (by decide))
    | clause => exact h.clause hs hop
    | endTry => exact h.endTry hs (hcount (by decide))

end Instruction

/-- An instruction after which `p` goes on takes `p'` to the place where `p` goes on. -/
theorem path_of_dispatch {m m₁ : Machine} {b : UInt8} {events : List Event} {text : String}
    (hm : Aligned p m) (fetch : p.byte? m.pc = some b) (next : m.dispatch p b = .next m₁ events text) :
    ∃ n events', 1 ≤ n ∧
      Path p' n (e.machine m (e.place m.pc)) events' text (e.machine m₁ (e.place m₁.pc)) := by
  have hfetch : p'.byte? (e.place m.pc) = some b :=
    e.byte?_place fetch
  have hfollows := dispatch_follows e hm fetch
  generalize hstep : (e.machine m (e.place m.pc)).dispatch p' b = step' at hfollows
  rw [next] at hfollows
  cases hfollows with
  | @next _ m' _ events' _ same slides =>
    obtain ⟨n, skipped, hslide⟩ := slides.path m'
    have hplace : { m' with pc := e.place m₁.pc } = e.machine m₁ (e.place m₁.pc) := by
      rw [same]
      rfl
    rw [hplace] at hslide
    have hpath := Path.step hfetch hstep hslide
    rw [String.append_empty] at hpath
    exact ⟨n + 1, _, Nat.le_add_left 1 n, hpath⟩

/-- A path in `p` is a path in `p'` that is no shorter. -/
theorem path {n : Nat} {m m₁ : Machine} {events : List Event} {text : String}
    (h : Path p n m events text m₁) (hm : Aligned p m) :
    ∃ n' events', n ≤ n' ∧
      Path p' n' (e.machine m (e.place m.pc)) events' text (e.machine m₁ (e.place m₁.pc)) := by
  induction h with
  | refl m => exact ⟨0, [], Nat.le_refl 0, .refl _⟩
  | step fetch next on ih =>
    obtain ⟨k, before, hk, hfirst⟩ := e.path_of_dispatch hm fetch next
    obtain ⟨n', after, hle, hrest⟩ := ih (hm.move (dispatch_move fetch next))
    exact ⟨k + n', before ++ after, by omega, hfirst.trans hrest⟩

end Embedding
end PixelCode
