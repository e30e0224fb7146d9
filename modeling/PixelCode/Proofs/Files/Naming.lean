import PixelCode.Files.Path
import PixelCode.Proofs.Text.Layout

/-! What it means that one path is named after another, and that the extension that a path is given is the one it has. -/
namespace PixelCode.Files

variable {path : String} {directories : List (List Char)} {name stem extension : List Char}

/-- The file name of a path: its last segment that is not void, with the directories before it. -/
structure IsNamed (path : String) (directories : List (List Char)) (name : List Char) : Prop where
  segments_eq : ∃ voids, segments path = directories ++ name :: voids ∧ ∀ segment ∈ voids, isVoid segment = true
  not_void : isVoid name = false
  not_parent : name ≠ ['.', '.']

private theorem eq_append_of_reverse {α : Type} (p : α → Bool) (l : List α) :
    ∃ back, l = (l.reverse.dropWhile p).reverse ++ back ∧ ∀ x ∈ back, p x = true := by
  refine ⟨(l.reverse.takeWhile p).reverse, ?_, fun x hx => ?_⟩
  · rw [← List.reverse_append, List.takeWhile_append_dropWhile, List.reverse_reverse]
  · exact List.all_eq_true.1 List.all_takeWhile x (List.mem_reverse.1 hx)

private theorem splitName?_eq_some_iff :
    splitName? path = some (directories, name) ↔ IsNamed path directories name := by
  constructor
  · intro h
    unfold splitName? at h
    split at h
    · cases h
    next last above hreverse =>
      split at h
      · cases h
      next hparent =>
        cases h
        obtain ⟨voids, hsegments, hvoids⟩ := eq_append_of_reverse isVoid (segments path)
        have hlast := List.head?_dropWhile_not isVoid (segments path).reverse
        rw [hreverse] at hsegments hlast
        exact ⟨⟨voids, by simpa using hsegments, hvoids⟩, hlast, hparent⟩
  · rintro ⟨⟨voids, hsegments, hvoids⟩, hvoid, hparent⟩
    have hdrop : (segments path).reverse.dropWhile isVoid = name :: directories.reverse := by
      rw [hsegments, List.reverse_append, List.reverse_cons, List.append_assoc,
        List.dropWhile_append_of_pos (fun segment h => hvoids segment (List.mem_reverse.1 h)),
        List.singleton_append, List.dropWhile_cons_of_neg (by rw [hvoid]; exact Bool.false_ne_true)]
    rw [splitName?, hdrop]
    simp [hparent]

private theorem IsNamed.no_slash (h : IsNamed path directories name) :
    ∀ segment ∈ directories ++ [name], ∀ c ∈ segment, (c == '/') = false := by
  obtain ⟨⟨voids, hsegments, -⟩, -, -⟩ := h
  intro segment hsegment
  refine Text.separates_of_mem_fields (?_ : segment ∈ segments path)
  rw [hsegments]
  rcases List.mem_append.1 hsegment with h | h
  · exact List.mem_append_left _ h
  · exact List.mem_append_right _ (List.mem_singleton.1 h ▸ List.mem_cons_self)

private theorem IsNamed.ne_nil (h : IsNamed path directories name) : name ≠ [] := by
  rintro rfl
  cases h.not_void

private theorem splitExtension_append (hstem : stem ≠ []) (hdot : '.' ∉ extension) :
    splitExtension (stem ++ '.' :: extension) = (stem, some extension) := by
  have hall : ∀ c ∈ extension.reverse, (c != '.') = true := by
    intro c hc
    simp only [bne_iff_ne]
    rintro rfl
    exact hdot (List.mem_reverse.1 hc)
  have hreverse : (stem ++ '.' :: extension).reverse = extension.reverse ++ '.' :: stem.reverse := by simp
  obtain ⟨last, above, habove⟩ := List.exists_cons_of_ne_nil (mt List.reverse_eq_nil_iff.1 hstem)
  have hagain : above.reverse ++ [last] = stem := by
    rw [← List.reverse_cons, ← habove, List.reverse_reverse]
  rw [splitExtension, hreverse, List.dropWhile_append_of_pos hall, List.takeWhile_append_of_pos hall, habove]
  simp [hagain]

/-- The stem of a file name is what stands before its last dot. A dot in front of the name does not count. -/
inductive HasStem : List Char → List Char → Prop
  | whole {name : List Char} (h : '.' ∉ name.tail) : HasStem name name
  | cut {stem extension : List Char} (hstem : stem ≠ []) (hdot : '.' ∉ extension) :
    HasStem (stem ++ '.' :: extension) stem

private theorem hasStem_splitExtension (name : List Char) :
    HasStem name (splitExtension name).1 := by
  obtain ⟨back, hname, hback⟩ := eq_append_of_reverse (· != '.') name
  have hdot : '.' ∉ back := fun hmem => absurd (hback _ hmem) (by decide)
  have hhead := List.head?_dropWhile_not (· != '.') name.reverse
  unfold splitExtension
  split
  next hrest =>
    rw [hrest] at hname
    exact .whole fun hmem => hdot (List.mem_of_mem_tail (by rwa [hname] at hmem))
  next first hrest =>
    rw [hrest] at hname
    exact .whole fun hmem => hdot (by rwa [hname] at hmem)
  next first stem hmany hrest =>
    rw [hrest] at hname hhead
    obtain rfl : first = '.' := by simpa using hhead
    have hcut : HasStem (stem.reverse ++ '.' :: back) stem.reverse :=
      .cut (fun hnil => hmany (List.reverse_eq_nil_iff.1 hnil)) hdot
    rwa [show stem.reverse ++ '.' :: back = name by simpa using hname.symm] at hcut

private theorem HasStem.splitExtension_eq (h : HasStem name stem) :
    (splitExtension name).1 = stem := by
  cases h with
  | cut hstem hdot => rw [splitExtension_append hstem hdot]
  | whole hdot =>
    cases name with
    | nil => rfl
    | cons first rest =>
      have hall : ∀ c ∈ rest.reverse, (c != '.') = true := by
        intro c hc
        exact bne_iff_ne.2 fun heq => hdot (heq ▸ List.mem_reverse.1 hc)
      rw [splitExtension, List.reverse_cons, List.dropWhile_append_of_pos hall]
      by_cases hfirst : first = '.' <;> simp [hfirst]

/-- A file name has a stem, and the stem comes first in it. -/
theorem stem_of_name (h : name ≠ []) : (splitExtension name).1 ≠ [] ∧ (splitExtension name).1 <+: name := by
  unfold splitExtension
  split
  · exact ⟨h, List.prefix_rfl⟩
  · exact ⟨h, List.prefix_rfl⟩
  next dot stem hmany hreverse =>
    constructor
    · exact fun hstem => hmany (List.reverse_eq_nil_iff.1 hstem)
    · have hsuffix := List.dropWhile_suffix (· != '.') (l := name.reverse)
      rw [hreverse] at hsuffix
      exact List.reverse_suffix.1 (by simpa using (List.suffix_cons dot stem).trans hsuffix)

private theorem mem_renamed (hname : name ≠ []) {c : Char} (h : c ∈ renamed name extension) :
    c ∈ name ∨ c = '.' ∨ c ∈ extension := by
  simp only [renamed] at h
  split at h
  · simp_all
  · rcases List.mem_append.1 h with h | h
    · exact .inl ((stem_of_name hname).2.subset h)
    · exact .inr (List.mem_cons.1 h)

private theorem isVoid_renamed (hname : name ≠ []) : isVoid (renamed name extension) = false := by
  simp only [renamed]
  split
  · rfl
  · obtain ⟨c, stem, hstem⟩ := List.exists_cons_of_ne_nil (stem_of_name hname).1
    simp [isVoid, hstem]

section WithExtension
variable {input output extension : String}

/-- The segments of a path that was given an extension. -/
theorem segments_withExtension (hslash : '/' ∉ extension.toList) (h : IsNamed input directories name) :
    segments (withExtension input extension) = directories ++ [renamed name extension.toList] := by
  have hslashes : ∀ segment ∈ directories ++ [renamed name extension.toList], ∀ c ∈ segment, (c == '/') = false := by
    intro segment hsegment c hc
    rcases List.mem_append.1 hsegment with hdirectory | hrenamed
    · exact h.no_slash segment (List.mem_append_left _ hdirectory) c hc
    · rw [List.mem_singleton.1 hrenamed] at hc
      rcases mem_renamed h.ne_nil hc with hc | rfl | hc
      · exact h.no_slash name (List.mem_append_right _ List.mem_cons_self) c hc
      · rfl
      · exact beq_eq_false_iff_ne.2 (ne_of_mem_of_not_mem hc hslash)
  rw [withExtension, splitName?_eq_some_iff.2 h]
  dsimp only
  rw [segments, String.toList_ofList, Text.fields_intercalate rfl (by simp) hslashes]

private theorem eq_of_segments {path path' : String} (h : segments path = segments path') :
    path = path' := by
  have hjoin (path : String) : ['/'].intercalate (segments path) = path.toList :=
    Text.intercalate_fields (fun x hx => beq_iff_eq.1 hx) path.toList
  rw [← String.toList_inj, ← hjoin path, ← hjoin path', h]

/-- One path is named after another: it leads to the same directories, and the file there has the stem of the other and
the extension. Where the stem is a single dot the name becomes that of the parent directory, and a path without a file
name stays as it is. -/
inductive NamedAfter (extension input output : String) : Prop
  | file {directories : List (List Char)} {name stem : List Char} (hinput : IsNamed input directories name)
    (hstem : HasStem name stem)
    (houtput : segments output =
      directories ++ [if stem = ['.'] then ['.', '.'] else stem ++ '.' :: extension.toList])
  | nameless (hinput : ∀ directories name, ¬ IsNamed input directories name) (houtput : output = input)

theorem namedAfter_iff (hslash : '/' ∉ extension.toList) :
    NamedAfter extension input output ↔ output = withExtension input extension := by
  have hrenamed {name stem : List Char} (hstem : HasStem name stem) :
      (if stem = ['.'] then ['.', '.'] else stem ++ '.' :: extension.toList) = renamed name extension.toList := by
    rw [renamed, hstem.splitExtension_eq]
  constructor
  · rintro (⟨hinput, hstem, houtput⟩ | ⟨hinput, rfl⟩)
    · exact eq_of_segments (by rw [segments_withExtension hslash hinput, houtput, hrenamed hstem])
    · have hnone : splitName? output = none := by
        cases hsplit : splitName? output with
        | none => rfl
        | some parts => exact absurd (splitName?_eq_some_iff.1 hsplit) (hinput _ _)
      rw [withExtension, hnone]
  · rintro rfl
    cases hsplit : splitName? input with
    | none =>
      refine .nameless (fun directories name hnamed => ?_) (by rw [withExtension, hsplit])
      rw [splitName?_eq_some_iff.2 hnamed] at hsplit
      cases hsplit
    | some parts =>
      have hinput := splitName?_eq_some_iff.1 hsplit
      have hstem := hasStem_splitExtension parts.2
      exact .file hinput hstem (by rw [segments_withExtension hslash hinput, hrenamed hstem])

/-- Unless its new name leads to the parent directory, a path has the extension that it was given. -/
theorem extension?_withExtension {parts : List (List Char) × List Char}
    (hslash : '/' ∉ extension.toList) (hdot : '.' ∉ extension.toList)
    (h : splitName? (withExtension input extension) = some parts) :
    extension? (withExtension input extension) = some extension := by
  cases hsplit : splitName? input with
  | none =>
    rw [withExtension, hsplit] at h
    rw [hsplit] at h
    cases h
  | some old =>
    obtain ⟨directories, name⟩ := old
    have hinput := splitName?_eq_some_iff.1 hsplit
    have hagain : splitName? (withExtension input extension) =
        if renamed name extension.toList = ['.', '.'] then none
        else some (directories, renamed name extension.toList) := by
      simp [splitName?, segments_withExtension hslash hinput, isVoid_renamed hinput.ne_nil]
    rw [hagain] at h
    split at h
    · cases h
    next hparent =>
      rw [extension?, hagain, if_neg hparent]
      have hdots : (splitExtension name).1 ≠ ['.'] := by
        intro hdots
        exact hparent (by simp [renamed, hdots])
      simp [renamed, hdots, splitExtension_append (stem_of_name hinput.ne_nil).1 hdot]

end WithExtension
end PixelCode.Files
