import PixelCode.Files.Volume
import PixelCode.Proofs.Except

/-! Files apart from the paths that lead to them. A write puts a file at one place and leaves all others as
they are. -/
namespace PixelCode.Files

/-- Paths lead to places, and a place holds a file or none. A write that succeeds is whole: it changes the
place that its path leads to and no other. -/
class Places (F : Type) [Volume F] where
  Place : Type
  /-- The place that a path leads to, whether or not a file is there. -/
  place? : F → String → Option Place
  content? : F → Place → Option (List UInt8)
  content?_of_read {files : F} {path : String} {bytes : List UInt8}
    (h : Volume.read files path = .ok bytes) :
    ∃ place, place? files path = some place ∧ content? files place = some bytes
  frame_of_write {files files' : F} {path : String} {bytes : List UInt8}
    (h : Volume.write files path bytes = .ok files') :
    ∃ place, place? files path = some place ∧ place? files' path = some place ∧
      content? files' place = some bytes ∧ ∀ other, other ≠ place → content? files' other = content? files other

/-- What was written to a path can be read there, and only a path with a file name can be written to. -/
class ReadsBack (F : Type) [Volume F] : Prop where
  read_of_write {files files' : F} {path : String} {bytes : List UInt8}
    (h : Volume.write files path bytes = .ok files') : Volume.read files' path = .ok bytes
  named_of_write {files files' : F} {path : String} {bytes : List UInt8}
    (h : Volume.write files path bytes = .ok files') : ∃ parts, splitName? path = some parts

namespace Store

variable {s s' : Store} {location other target : Location} {node : Node} {bytes : List UInt8} {path : String}

section Put

private theorem lookup_entry (key other : Location) (node : Node) (nodes : List (Location × Node)) :
    ((key, node) :: nodes).lookup other = if other = key then some node else nodes.lookup other := by
  by_cases h : other = key
  · simp [h]
  · rw [List.lookup_cons, beq_eq_false_iff_ne.2 h, if_neg h]

private theorem lookup_replaced (nodes : List (Location × Node)) (location other : Location)
    (node : Node) :
    (nodes.map fun entry => if entry.1 = location then (location, node) else entry).lookup other =
      if other = location then (nodes.lookup location).map fun _ => node else nodes.lookup other := by
  induction nodes with
  | nil => simp
  | cons entry nodes ih =>
    obtain ⟨key, old⟩ := entry
    rw [List.map_cons, lookup_entry, lookup_entry]
    by_cases hkey : key = location
    · subst hkey
      rw [if_pos rfl, lookup_entry, ih, if_pos rfl]
      by_cases hother : other = key <;> simp [hother]
    · rw [if_neg hkey, lookup_entry, ih, if_neg (Ne.symm hkey)]
      by_cases hother : other = key
      · simp [hother, hkey]
      · simp [hother]

/-- Only the origins have no name, and they are directories. -/
theorem names_ne_nil (h : s.node? location ≠ some .directory) : location.names ≠ [] :=
  fun hnames => h (if_pos hnames)

/-- A node that was put somewhere stands there and nowhere else. -/
theorem node?_put (hnamed : location.names ≠ []) :
    (s.put location node).node? other = if other = location then some node else s.node? other := by
  by_cases hother : other = location
  · subst hother
    rw [if_pos rfl, node?, if_neg hnamed, put]
    cases hold : s.nodes.lookup other with
    | none => simp [hold, List.lookup_append]
    | some old => simp [lookup_replaced, hold]
  · rw [if_neg hother, node?, node?, put]
    split
    · rfl
    · split
      · rw [lookup_replaced, if_neg hother]
      · rw [List.lookup_append, lookup_entry, if_neg hother, List.lookup_nil, Option.or_none]

end Put

section Write

private theorem followAll_append (s : Store) (start : Location) (segments rest : List (List Char)) :
    s.followAll start (segments ++ rest) = (s.followAll start segments).bind (s.followAll · rest) := by
  induction segments generalizing start with
  | nil => rfl
  | cons segment segments ih =>
    rw [List.cons_append, followAll, followAll]
    cases s.follow start segment with
    | error e => rfl
    | ok next => exact ih next

/-- Only what leads through a file depends on it. -/
theorem followAll_put {start : Location} {segments : List (List Char)}
    (hnode : s.node? location ≠ some .directory) (h : s.followAll start segments = .ok target) :
    (s.put location node).followAll start segments = .ok target := by
  induction segments generalizing start with
  | nil => exact h
  | cons segment segments ih =>
    rw [followAll] at h ⊢
    cases hfollow : s.follow start segment with
    | error e =>
      rw [hfollow] at h
      cases h
    | ok next =>
      have hstep : (s.put location node).follow start segment = .ok next := by
        have hstart : start ≠ location := by
          rintro rfl
          unfold follow at hfollow
          split at hfollow
          · cases hfollow
          · cases hfollow
          · next hdirectory => exact hnode hdirectory
        rw [follow, node?_put (names_ne_nil hnode), if_neg hstart]
        exact hfollow
      rw [hfollow] at h
      rw [hstep]
      exact ih h

private theorem start_eq (segments : List (List Char)) :
    segments = (Location.start segments).2 ∨ segments = [] :: (Location.start segments).2 := by
  unfold Location.start
  split
  · exact .inr rfl
  · exact .inl rfl

/-- A path whose last segment is a name has this file name. -/
theorem exists_splitName? {last : List Char} {directories : List (List Char)}
    (hsegments : (Location.start (segments path)).2 = directories ++ [last]) (hvoid : isVoid last = false)
    (hparent : last ≠ ['.', '.']) : ∃ parts, splitName? path = some parts := by
  obtain ⟨above, habove⟩ : ∃ above, segments path = above ++ [last] := by
    rcases start_eq (segments path) with heq | heq
    · exact ⟨directories, heq.trans hsegments⟩
    · exact ⟨[] :: directories, heq.trans (congrArg _ hsegments)⟩
  refine ⟨(above, last), ?_⟩
  simp [splitName?, habove, hvoid, hparent]

/-- A write that succeeds puts the file where its path leads to, and the path has a file name. -/
theorem write_eq_ok (h : s.write path bytes = .ok s') :
    ∃ location, s.locate path = .ok location ∧ s.node? location ≠ some .directory ∧
      s' = s.put location (.file bytes) ∧ ∃ parts, splitName? path = some parts := by
  unfold write at h
  split at h
  · cases h
  next hempty =>
    dsimp only at h
    split at h
    · cases h
    next last directories hreverse =>
      obtain ⟨directory, hdirectory, h⟩ := bind_eq_ok_iff.1 h
      obtain ⟨location, hlocation, h⟩ := bind_eq_ok_iff.1 h
      split at h
      · cases h
      next hname =>
        simp only [Bool.or_eq_true, decide_eq_true_eq, beq_iff_eq, not_or, Bool.not_eq_true,
          Nat.not_lt] at hname
        obtain ⟨⟨hlength, hvoid⟩, hparent⟩ := hname
        have hall : (Location.start (segments path)).2 = directories.reverse ++ [last] := by
          have hsuffix := List.dropWhile_suffix (· == []) (l := (Location.start (segments path)).2.reverse)
          rw [hreverse] at hsuffix
          have heq := hsuffix.eq_of_length_le (by simpa using hlength)
          rw [← List.reverse_reverse (Location.start (segments path)).2, ← heq, List.reverse_cons]
        have hlocate : s.locate path = .ok location := by
          rw [locate, if_neg hempty]
          simp only [hall, followAll_append, hdirectory]
          show s.followAll directory [last] = .ok location
          exact bind_eq_ok_iff.2 ⟨location, hlocation, rfl⟩
        refine ⟨location, hlocate, ?_, ?_, exists_splitName? hall hvoid hparent⟩
        · intro hdirectory
          rw [hdirectory] at h
          cases h
        · split at h
          · cases h
          · exact (Except.ok.inj h).symm

private theorem locate_put (hnode : s.node? location ≠ some .directory)
    (h : s.locate path = .ok target) : (s.put location node).locate path = .ok target := by
  unfold locate at h ⊢
  split at h
  · cases h
  next hempty =>
    rw [if_neg hempty]
    exact followAll_put hnode h

end Write

def content? (s : Store) (location : Location) : Option (List UInt8) :=
  match s.node? location with
  | some (.file bytes) => some bytes
  | _ => none

theorem content?_of_read (h : Volume.read s path = .ok bytes) :
    ∃ location, (s.locate path).toOption = some location ∧ s.content? location = some bytes := by
  have h : s.read path = .ok bytes := mapError_eq_ok_iff.1 h
  obtain ⟨location, hlocation, h⟩ := bind_eq_ok_iff.1 h
  refine ⟨location, by rw [hlocation]; rfl, ?_⟩
  unfold content?
  split at h
  · cases h
  · cases h
  next hfile =>
    cases h
    rw [hfile]

theorem frame_of_write (h : Volume.write s path bytes = .ok s') :
    ∃ location, (s.locate path).toOption = some location ∧ (s'.locate path).toOption = some location ∧
      s'.content? location = some bytes ∧
      ∀ other, other ≠ location → s'.content? other = s.content? other := by
  obtain ⟨location, hlocate, hnode, rfl, -⟩ := write_eq_ok (mapError_eq_ok_iff.1 h)
  have hnamed := names_ne_nil hnode
  refine ⟨location, by rw [hlocate]; rfl, by rw [locate_put hnode hlocate]; rfl, ?_, ?_⟩
  · rw [content?, node?_put hnamed, if_pos rfl]
  · intro other hother
    rw [content?, node?_put hnamed, if_neg hother, content?]

theorem read_of_write (h : Volume.write s path bytes = .ok s') : Volume.read s' path = .ok bytes := by
  obtain ⟨location, hlocate, hnode, rfl, -⟩ := write_eq_ok (mapError_eq_ok_iff.1 h)
  have hnamed := names_ne_nil hnode
  refine mapError_eq_ok_iff.2 (bind_eq_ok_iff.2 ⟨location, locate_put hnode hlocate, ?_⟩)
  rw [node?_put hnamed, if_pos rfl]

theorem named_of_write (h : Volume.write s path bytes = .ok s') : ∃ parts, splitName? path = some parts := by
  obtain ⟨location, -, -, -, hnamed⟩ := write_eq_ok (mapError_eq_ok_iff.1 h)
  exact hnamed

instance : Places Store where
  Place := Location
  place? files path := (files.locate path).toOption
  content? := content?
  content?_of_read := content?_of_read
  frame_of_write := frame_of_write

instance : ReadsBack Store := ⟨read_of_write, named_of_write⟩

end Store
end PixelCode.Files
