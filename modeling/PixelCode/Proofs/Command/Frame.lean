import PixelCode.Png.Codec
import PixelCode.Proofs.Command.Reception
import PixelCode.Proofs.Files.Places

/-! Which files a process changes. Only a command that succeeds does, and it changes the place that its output leads to
and no other; where the error stream refuses the last word of a command, the process is aborted after that. -/
namespace PixelCode.Command

open Files (Volume Places)

variable {F : Type} [Volume F]

section Heard
variable (lib : Library) (fuel : Nat) (env : Environment) {arguments : List String} {w : World F}

/-- Where all that is told is taken, a command that makes a file succeeds exactly if the file can be made and written. -/
theorem puts_or_kept (hw : w.Heard) (hmakes : makes (request arguments) = true) :
    let done := performance lib fuel env arguments w
    done.1 = .success ∧ Puts lib.codec w.runtime w.files (request arguments) done.2.files ∨
      done.1 ≠ .success ∧ done.2.files = w.files ∧
        ∀ written, ¬ Puts lib.codec w.runtime w.files (request arguments) written := by
  cases hput : put w.files (product lib.codec w.runtime w.files (request arguments)) with
  | ok written =>
    obtain ⟨hsuccess, hfiles⟩ := performance_of_put lib fuel env hw hmakes hput
    exact .inl ⟨hsuccess, put_eq_ok_iff.1 (hfiles ▸ hput)⟩
  | error exit =>
    obtain ⟨hexit, hfiles⟩ := performance_of_no_put lib fuel env hw hmakes hput
    refine .inr ⟨?_, hfiles, fun written hputs => nomatch hput.symm.trans (put_eq_ok_iff.2 hputs)⟩
    rw [hexit]
    rcases failsOr_put lib.codec w.runtime w.files (request arguments) hput with rfl | hexhausts
    · nofun
    · rcases hexhausts.exit_eq with rfl | rfl <;> nofun

/-- A command that makes a file and succeeds has put it into its output, whatever the error stream takes. -/
theorem puts_of_success {files : F} {stdout stderr : Sink} {runtime : Runtime} {lib fuel env}
    (hmakes : makes (request arguments) = true)
    (hexit : (performance lib fuel env arguments (.start files stdout stderr runtime)).1 = .success) :
    Puts lib.codec runtime files (request arguments)
      (performance lib fuel env arguments (.start files stdout stderr runtime)).2.files := by
  rcases meets_performance lib fuel env arguments files stdout stderr runtime with ⟨hsame, hfollows⟩ | ⟨haborted, -⟩
  · rw [hfollows.files]
    rcases puts_or_kept lib fuel env (w := .start files stdout .unlimited runtime) rfl hmakes with ⟨-, hputs⟩ | ⟨hfailed, -⟩
    · exact hputs
    · exact absurd (hsame.symm.trans hexit) hfailed
  · cases haborted.symm.trans hexit

end Heard

section Processes
variable (lib : Library) (fuel : Nat) (env : Environment) {argv : List (List UInt8)} {request : List String} (files : F)
  (stdout stderr : Sink) (runtime : Runtime)

/-- A process that makes no file changes none. -/
theorem files_of_not_makes (hrequest : requested argv = .ok request) (hmakes : makes request = false) :
    (invocation lib fuel env argv (.start files stdout stderr runtime)).2.files = files := by
  obtain ⟨arguments, hwords, rfl⟩ := map_eq_ok_iff.1 hrequest
  rw [invocation_of_words _ _ _ hwords]
  exact files_of_performance_of_not_makes lib fuel env hmakes _

private theorem files_of_makes (hrequest : requested argv = .ok request)
    (hmakes : makes request = true) :
    let done := invocation lib fuel env argv (.start files stdout stderr runtime)
    done.1 = .success ∧ Puts lib.codec runtime files request done.2.files ∨
      done.1 ≠ .success ∧ done.2.files = files ∧
        (stderr.Takes (errorText done.2.told) → ∀ written, ¬ Puts lib.codec runtime files request written) ∨
      done.1 = .aborted ∧ ¬ stderr.Takes (errorText done.2.told) ∧ Puts lib.codec runtime files request done.2.files := by
  intro done
  obtain ⟨arguments, hwords, rfl⟩ := map_eq_ok_iff.1 hrequest
  have hheard := puts_or_kept lib fuel env (w := .start files stdout .unlimited runtime) rfl hmakes
  rcases meets_invocation lib fuel env argv files stdout stderr runtime with ⟨hexit, hfollows⟩ | ⟨haborted, hmissed, hfiles⟩
  · rw [invocation_of_words _ _ _ hwords (.start files stdout .unlimited runtime)] at hexit hfollows
    rcases hheard with ⟨hsuccess, hputs⟩ | ⟨hfailed, hkept, hnone⟩
    · refine .inl ⟨hexit.trans hsuccess, ?_⟩
      rw [hfollows.files]
      exact hputs
    · exact .inr (.inl ⟨fun hsuccess => hfailed (hexit.symm.trans hsuccess), hfollows.files.trans hkept, fun _ => hnone⟩)
  · have hleft : done.2.files = files ∨ Puts lib.codec runtime files (Command.request (arguments.drop 1)) done.2.files := by
      rw [invocation_of_words _ _ _ hwords (.start files stdout .unlimited runtime)] at hfiles
      rcases hfiles with hkept | hsame
      · exact .inl hkept
      · rw [show done.2.files = _ from hsame]
        exact hheard.symm.imp (fun h => h.2.1) fun h => h.2
    rcases hleft with hkept | hputs
    · have hfailed : done.1 ≠ .success := fun hsuccess => nomatch haborted.symm.trans hsuccess
      exact .inr (.inl ⟨hfailed, hkept, fun htakes => absurd htakes hmissed.refused⟩)
    · exact .inr (.inr ⟨haborted, hmissed.refused, hputs⟩)

end Processes

private theorem Exit.code_eq_zero_iff {exit : Exit} : exit.code = 0 ↔ exit = .success := by
  cases exit <;> decide

def sourceInDirectory : Files.Store :=
  ⟨[(.ofNames ["d.x".toList], .directory), (.ofNames ["d.x".toList, "p.chasm".toList], .file "PUSH 7\n".toUTF8.data.toList)]⟩

def assembledSource : Exit × World Files.Store :=
  invocation ⟨Png.codec, .byLevel⟩ 0 ⟨none, none⟩
    (["chroma", "assemble", "-v", "d.x//p.chasm"].map (·.toUTF8.data.toList))
    (.start sourceInDirectory .unlimited .unlimited .plain)

/-- The size of an image is counted in a word: one whose sides have a product of no low digits needs no pixels. -/
example :
    (invocation ⟨Png.codec, .byLevel⟩ 0 ⟨none, none⟩
      (["chroma", "embed", "p.chb", "c.rgba", "4294967296", "4294967296"].map (·.toUTF8.data.toList))
      (.start (⟨[(.ofNames ["p.chb".toList], .file []), (.ofNames ["c.rgba".toList], .file [])]⟩ : Files.Store)
        .unlimited .unlimited .plain)).1.code = 0 := by
  decide +kernel

end PixelCode.Command
