import PixelCode.Proofs.Machine.Ending
import PixelCode.Proofs.Machine.Relocation

/-! The run of a program and the run of one in which it is embedded: they print the same and end in the
same way, unless the second is spared the fault of the first. -/
namespace PixelCode

def Exit.moved (place : Nat → Nat) : Exit → Exit
  | .faulted f => .faulted { f with pc := place f.pc }
  | exit => exit

namespace Embedding
open Machine Program

variable {p p' : Program} (e : Embedding p p') {m m' : Machine} {exit : Exit} {text : String}

private theorem machine_initial (pc : Nat) : e.machine initial pc = { initial with pc } := by
  have hfunctions : (Slots.empty : Slots Nat).map e.resume = .empty := by
    ext id : 1
    simp
  simp [machine, initial, hfunctions]

private theorem path_initial {n : Nat} {events : List Event} (h : Path p n initial events text m) :
    ∃ n' events', n ≤ n' ∧ Path p' n' initial events' text (e.machine m (e.place m.pc)) := by
  have hslides := e.slides (Boundary.start p)
  rw [e.resume_zero] at hslides
  obtain ⟨k, before, hfirst⟩ := hslides.path initial
  rw [← e.machine_initial (e.place 0)] at hfirst
  obtain ⟨n', after, hle, hrest⟩ := e.path h (.initial p)
  have hpath := hfirst.trans hrest
  rw [String.empty_append] at hpath
  exact ⟨k + n', before ++ after, by omega, hpath⟩

/-- The last instruction of a run is the last one in `p'` too, unless `p'` is spared its fault. -/
theorem last (hm : Aligned p m) (h : Last p m m' exit) (hexit : exit ≠ .offEnd)
    (hspared : ∀ f, exit = .faulted f → ¬ e.Spared f.cause) :
    ∃ pc, m'.pc = pc + 1 ∧
      Last p' (e.machine m (e.place m.pc)) (e.machine m' (e.place pc + 1)) (exit.moved e.place) := by
  cases h with
  | offEnd => exact absurd rfl hexit
  | halted op =>
    exact ⟨m.pc, rfl, .halted ((e.opcode?_place (lt_size_of_opcode? op)).trans op)⟩
  | returned op outside =>
    refine ⟨m.pc, rfl, .returned ((e.opcode?_place (lt_size_of_opcode? op)).trans op) ?_⟩
    simp [machine, outside]
  | @faulted b m' events cause fetch fails =>
    have hs := hm.pc.mem_walk (lt_size_of_byte? fetch)
    have hfollows := dispatch_follows e hm fetch
    generalize hstep : (e.machine m (e.place m.pc)).dispatch p' b = step' at hfollows
    rw [fails] at hfollows
    cases hfollows with
    | @fault k _ m'' _ events' _ inside =>
      have hpc' : m''.pc = e.place (m.pc + k) + 1 := by
        rw [inside.pc', e.place_add hs inside.le, Nat.add_assoc]
      have hm'' : m'' = e.machine m' (e.place (m.pc + k) + 1) := by
        rw [← hpc']
        exact inside.same
      subst hm''
      refine ⟨m.pc + k, inside.pc, ?_⟩
      have hlast := Last.faulted (e.byte?_place fetch) hstep
      rw [Exit.moved, inside.pc]
      exact hlast
    | spared hspared' => exact absurd hspared' (hspared _ rfl)

/-- A run that does not come to the end of `p` ends in `p'` as it does in `p`. -/
theorem endsBy (h : EndsBy p exit m text) (hexit : exit ≠ .offEnd)
    (hspared : ∀ f, exit = .faulted f → ¬ e.Spared f.cause) :
    ∃ pc, m.pc = pc + 1 ∧ EndsBy p' (exit.moved e.place) (e.machine m (e.place pc + 1)) text := by
  obtain ⟨n, events, m₁, hpath, hlast⟩ := h
  have haligned := Reachable.aligned ⟨n, events, text, hpath⟩
  obtain ⟨n', events', -, hpath'⟩ := e.path_initial hpath
  obtain ⟨pc, hpc, hlast'⟩ := e.last haligned hlast hexit hspared
  exact ⟨pc, hpc, n', events', _, hpath', hlast'⟩

/-- A run that comes to the end of `p` goes on in `p'` behind its instructions. -/
theorem path_offEnd (h : EndsBy p .offEnd m text) :
    m.pc = p.size ∧ ∃ n events, Path p' n initial events text (e.machine m (e.place p.size)) := by
  obtain ⟨n, events, m₁, hpath, hlast⟩ := h
  cases hlast with
  | offEnd gone =>
    have hle := (Reachable.aligned ⟨n, events, text, hpath⟩).pc.le_size
    have hend : m.pc = p.size := by
      refine Nat.le_antisymm hle (Nat.not_lt.1 fun hlt => ?_)
      obtain ⟨b, hb⟩ := byte?_eq_some_of_lt hlt
      rw [hb] at gone
      cases gone
    obtain ⟨n', events', -, hpath'⟩ := e.path_initial hpath
    rw [hend] at hpath'
    exact ⟨hend, n', events', hpath'⟩

/-- If `p'` is spared no fault of a scan, nothing but unknown bytes follows there, and it comes to its
end as well. -/
theorem endsBy_offEnd (hscans : ¬ Fault.CoversScans e.Spared) (h : EndsBy p .offEnd m text) :
    ∃ pc, EndsBy p' .offEnd (e.machine m pc) text := by
  obtain ⟨hend, n, events, hpath⟩ := e.path_offEnd h
  obtain ⟨k, events₁, m₁, hpath₁, hlast⟩ := h
  cases hlast
  have hboundary := (Reachable.aligned ⟨k, events₁, text, hpath₁⟩).pc
  rw [hend] at hboundary
  obtain ⟨target, hslides, hout⟩ := (e.finish hboundary).resolve_right hscans
  obtain ⟨k, skipped, hslide⟩ := hslides.path (e.machine m (e.place p.size))
  have hgone : p'.byte? target = none := Array.getElem?_eq_none hout
  have hpath' := hpath.trans hslide
  rw [String.append_empty] at hpath'
  exact ⟨target, n + k, _, _, hpath', .offEnd hgone⟩

theorem endsBy_of_scans (hscans : ¬ Fault.CoversScans e.Spared) (h : EndsBy p exit m text)
    (hspared : ∀ f, exit = .faulted f → ¬ e.Spared f.cause) :
    ∃ pc, EndsBy p' (exit.moved e.place) (e.machine m pc) text := by
  by_cases hexit : exit = .offEnd
  · subst hexit
    exact e.endsBy_offEnd hscans h
  · obtain ⟨pc, -, hends⟩ := e.endsBy h hexit hspared
    exact ⟨_, hends⟩

/-- If `p'` ends, so does `p`: every instruction of `p` takes `p'` at least one. -/
theorem run_ends (e : Embedding p p') {fuel : Nat} {trace trace' : Trace} {r' : Run}
    (h : initial.run p' fuel .unlimited trace' = some r') :
    ∃ r, initial.run p fuel .unlimited trace = some r := by
  cases hrun : initial.run p fuel .unlimited trace with
  | some r => exact ⟨r, rfl⟩
  | none =>
    obtain ⟨events, text, m, hpath⟩ := path_of_runFrom_eq_none rfl hrun
    obtain ⟨n', events', hle, hpath'⟩ := e.path_initial hpath
    rw [run, reset, hpath'.runFrom_eq_none hle rfl] at h
    cases h

end Embedding
end PixelCode
