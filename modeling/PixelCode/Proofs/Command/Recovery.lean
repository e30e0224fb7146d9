import PixelCode.Proofs.Command.Frame
import PixelCode.Proofs.Image.Hiding
import PixelCode.Proofs.Png.Lossless

/-! A program that was hidden in an image is found again: by `extract` whatever the image was called, and by `run`
if it kept the format of its cover. -/
namespace PixelCode.Command

open Files (Volume ReadsBack withExtension splitName? extension?)

variable {F : Type} [Volume F] {codec : ImageCodec} {files : F}

section Cover
variable {path : String} {rest outputs : List String} {cover : Raster}

/-- A cover has one of the two formats of images and is not empty, and what stands behind it was among the arguments. -/
theorem cover?_eq_some (hcodec : codec.Lossless) (h : cover? codec files path rest = some (cover, outputs)) :
    (Format.ofPath path = .png ∨ Format.ofPath path = .rgba) ∧ (0 < cover.width ∧ 0 < cover.height) ∧
      outputs ⊆ rest := by
  unfold cover? at h
  split at h
  next hformat =>
    obtain ⟨image, himage, heq⟩ := Option.map_eq_some_iff.1 h
    cases heq
    obtain ⟨bytes, -, hdecode⟩ := Option.bind_eq_some_iff.1 himage
    exact ⟨.inl hformat, hcodec.positive (toOption_eq_some_iff.1 hdecode), fun _ h => h⟩
  next width height _ hformat =>
    obtain ⟨width, hwidth, h⟩ := Option.bind_eq_some_iff.1 h
    obtain ⟨height, hheight, h⟩ := Option.bind_eq_some_iff.1 h
    obtain ⟨rgba, -, heq⟩ := Option.map_eq_some_iff.1 h
    cases heq
    have hwidth := (Option.filter_eq_some_iff.1 hwidth).2
    have hheight := (Option.filter_eq_some_iff.1 hheight).2
    exact ⟨.inr hformat, ⟨of_decide_eq_true hwidth, of_decide_eq_true hheight⟩,
      fun _ h => List.mem_cons_of_mem _ (List.mem_cons_of_mem _ h)⟩
  · cases h

end Cover

section Stored
variable {path : String} {image : Raster} {content : List UInt8}

/-- An image that was stored at a path is found there, in whatever format. -/
theorem pixels?_of_stored (hcodec : codec.Lossless) (hstored : stored? codec path image = some content)
    (hpositive : 0 < image.width ∧ 0 < image.height)
    (hsize : image.rgba.length = 4 * (image.width * image.height))
    (hread : Volume.read files path = .ok content) :
    pixels? codec files path = some image.rgba := by
  have hfile : file? files path = some content := toOption_eq_some_iff.2 hread
  unfold stored? at hstored
  unfold pixels?
  split at hstored
  next hformat =>
    split at hstored
    · cases hstored
    next hsides =>
      rw [if_neg (by omega)] at hstored
      cases hstored
      have hdecode := hcodec.decode_encode hpositive (by omega) (by omega) hsize
      rw [if_pos hformat, image?, hfile, Option.bind_some, hdecode]
      rfl
  next hformat =>
    cases hstored
    rw [if_neg hformat, hfile]

private theorem held?_eq_pixels?
    (hformat : Format.ofPath path = .png ∨ Format.ofPath path = .rgba) :
    held? codec files path (.ofPath path) = (pixels? codec files path).map Pixel.reveal := by
  unfold pixels?
  rcases hformat with hformat | hformat
  · rw [hformat, if_pos rfl, held?, Option.map_map]
    rfl
  · rw [hformat, if_neg nofun, held?]

end Stored

section Hidden

/-- A program and a cover that it fits in, as `embed` finds them, and the path of the image that it makes. -/
structure Hides (codec : ImageCodec) (files : F) (input path : String) (rest : List String) (p : Program)
    (cover : Raster) (outputs : List String) (output : String) : Prop where
  program_eq : program? codec files input (.ofPath input) = some p
  cover_eq : cover? codec files path rest = some (cover, outputs)
  output_eq : output? (withExtension input (coverExtension path)) outputs = some output
  fits : p.size ≤ cover.width * cover.height
  whole : cover.rgba.length = 4 * (cover.width * cover.height)

variable {input path : String} {rest outputs : List String} {p : Program} {cover : Raster} {output : String}
  {content : List UInt8}

/-- What `embed` makes is an image as large as the cover, and the program is hidden in it. -/
theorem hides_of_makes {runtime : Runtime}
    (hmemory : ∀ cover outputs, cover? codec files path rest = some (cover, outputs) →
      cover.width * cover.height * 4 < Pixel.wordSize)
    (h : Makes codec runtime files ("embed" :: input :: path :: rest) output content) :
    ∃ p cover outputs rgba, Hides codec files input path rest p cover outputs output ∧
      Pixel.reveal rgba = Pixel.padded p.toList (cover.width * cover.height) ∧
      rgba.length = 4 * (cover.width * cover.height) ∧
      stored? codec output { cover with rgba } = some content := by
  have h : embedded codec runtime files (input :: path :: rest) = .ok (output, content) := product_eq_ok_iff.2 h
  obtain ⟨⟨cover, outputs⟩, hcover, h⟩ := bind_eq_ok_iff.1 h
  obtain ⟨output, houtput, h⟩ := bind_eq_ok_iff.1 h
  obtain ⟨p, hprogram, h⟩ := bind_eq_ok_iff.1 h
  obtain ⟨-, -, h⟩ := bind_eq_ok_iff.1 h
  obtain ⟨rgba, hhidden, h⟩ := bind_eq_ok_iff.1 h
  obtain ⟨image, hstored, h⟩ := bind_eq_ok_iff.1 h
  cases h
  have hcover := orFail_eq_ok_iff.1 hcover
  have hword := hmemory cover outputs hcover
  have hhidden := toOption_eq_some_iff.1 (orFail_eq_ok_iff.1 hhidden)
  rw [(Pixel.sizes_of_fits hword).1] at hhidden
  obtain ⟨hbytes, hwhole, hlength⟩ := Pixel.length_of_conceal hword hhidden
  obtain ⟨rgba', hrgba', hreveal⟩ := Pixel.exists_conceal hword hbytes hwhole
  obtain rfl : rgba = rgba' := Except.ok.inj (hhidden.symm.trans hrgba')
  have hfits : p.size ≤ cover.width * cover.height := by
    rw [Pixel.padded, List.length_append] at hbytes
    have hsize : p.toList.length = p.size := Array.length_toList
    omega
  exact ⟨p, cover, outputs, rgba, ⟨orFail_eq_ok_iff.1 hprogram, hcover, orFail_eq_ok_iff.1 houtput, hfits, hwhole⟩,
    hreveal, hlength, orFail_eq_ok_iff.1 hstored⟩

/-- An image that is named after the program has the format of its cover. -/
theorem ofPath_withExtension (hpath : Format.ofPath path = .png ∨ Format.ofPath path = .rgba)
    {parts : List (List Char) × List Char}
    (hnamed : splitName? (withExtension input (coverExtension path)) = some parts) :
    Format.ofPath (withExtension input (coverExtension path)) = Format.ofPath path := by
  unfold coverExtension at hnamed ⊢
  rcases hpath with hpath | hpath
  · rw [if_pos hpath] at hnamed ⊢
    rw [hpath, Format.ofPath, Files.extension?_withExtension (by decide) (by decide) hnamed]
    decide +kernel
  · rw [if_neg (by rw [hpath]; nofun)] at hnamed ⊢
    rw [hpath, Format.ofPath, Files.extension?_withExtension (by decide) (by decide) hnamed]
    decide +kernel

end Hidden

section Running

def Exit.ofRun : Option Run → Exit
  | none => .unfinished
  | some r =>
    match r.flushed with
    | .finished => .success
    | .faulted _ => .faulted
    | .refused _ => .failure

def stdoutOf (sink : Sink) : Option Run → Sink
  | none => sink
  | some r => r.out

private theorem ends_conclude (s : Settings) (ran : Option Run) {w : World F} (hw : w.Heard) :
    Ends (conclude s ran) w (Exit.ofRun ran) (stdoutOf w.stdout ran) := by
  cases ran with
  | none => exact ⟨w, rfl, .inr rfl⟩
  | some r =>
    refine Ends.of_asks (Asks.logAll s _) hw rfl fun w₁ hbeside => ?_
    refine Ends.of_lift ?_
    have hheard : ({ w₁ with stdout := r.out } : World F).Heard := hbeside.heard
    rw [Exit.ofRun, stdoutOf]
    cases r.flushed with
    | finished => exact ⟨{ w₁ with stdout := r.out }, rfl, .inl ⟨rfl, rfl⟩⟩
    | faulted f => exact ⟨_, rfl, .inr (outcome_reportFault hheard f)⟩
    | refused reason => exact Ends.of_unanswered (Asks.fail _) hheard rfl

theorem outcome_run (s : Settings) {arguments : List String} {w : World F} (hw : w.Heard) {p : Program}
    (h : loaded? s.codec w.files arguments = some p) :
    ∃ w', w.Beside w' ∧ outcome (run s arguments) w = outcome (conclude s (s.ran p w.stdout)) w' := by
  cases arguments with
  | nil => cases h
  | cons input rest =>
    obtain ⟨w', hbeside, hdone⟩ := outcome_of_loaded s
      (fun p => do conclude s (s.ran p (← ExceptT.lift Host.stdout))) hw h
    refine ⟨w', hbeside, hdone.trans ?_⟩
    rw [outcome_bind, outcome_lift, ← hbeside.stdout]
    rfl

/-- A run ends as the machine says, and its text is delivered. -/
theorem ends_run (s : Settings) {arguments : List String} {w : World F} (hw : w.Heard) {p : Program}
    (h : loaded? s.codec w.files arguments = some p) :
    Ends (run s arguments) w (Exit.ofRun (s.ran p w.stdout)) (stdoutOf w.stdout (s.ran p w.stdout)) := by
  obtain ⟨w', hbeside, hdone⟩ := outcome_run s hw h
  rw [Ends, hdone, ← hbeside.stdout]
  exact ends_conclude s _ hbeside.heard

theorem performance_of_ends {lib : Library} {fuel : Nat} {env : Environment} {arguments : List String} {w : World F}
    {exit : Exit} {out : Sink} (h : Ends (dispatch (settings lib fuel env arguments) (request arguments)) w exit out) :
    (performance lib fuel env arguments w).1 = exit ∧ (performance lib fuel env arguments w).2.stdout = out := by
  obtain ⟨w', hstdout, ⟨houtcome, hexit⟩ | houtcome⟩ := h
  · rw [performance_of_outcome houtcome]
    exact ⟨hexit.symm, hstdout⟩
  · rw [performance_of_outcome houtcome]
    exact ⟨rfl, hstdout⟩

private theorem request_eq_self {arguments : List String}
    (h : ∀ argument ∈ arguments, isVerbosity argument = false) :
    request arguments = arguments ∧ arguments.any isVerbosity = false := by
  constructor
  · rw [request, List.filter_eq_self]
    intro argument hargument
    rw [h argument hargument]
    rfl
  · rw [List.any_eq_false]
    intro argument hargument
    rw [h argument hargument]
    nofun

private theorem performance_run (lib : Library) (fuel : Nat) (env : Environment) {input : String}
    {w : World F} {p : Program}
    (hw : w.Heard) (hinput : isVerbosity input = false) (h : program? lib.codec w.files input (.ofPath input) = some p) :
    let ran := Machine.initial.run p fuel w.stdout (.start (chosenFilter lib.logger env false).finest)
    (performance lib fuel env ["run", input] w).1 = Exit.ofRun ran ∧
      (performance lib fuel env ["run", input] w).2.stdout = stdoutOf w.stdout ran := by
  obtain ⟨hrequest, hquiet⟩ : request ["run", input] = ["run", input] ∧
      ["run", input].any isVerbosity = false :=
    request_eq_self (by simp [hinput, show isVerbosity "run" = false from rfl])
  have hloaded : loaded? lib.codec w.files [input] = some p := h
  have hends := ends_run (settings lib fuel env ["run", input]) hw hloaded
  rw [settings, hquiet] at hends
  apply performance_of_ends
  rw [hrequest, settings, hquiet]
  exact hends

end Running

section Recovery

/-- No argument that asks for debug events can be mistaken for an image. -/
theorem isVerbosity_of_format {path : String} (h : Format.ofPath path ≠ .bin) : isVerbosity path = false := by
  rw [isVerbosity, Bool.or_eq_false_iff, beq_eq_false_iff_ne, beq_eq_false_iff_ne]
  constructor
  · rintro rfl
    exact h (by decide)
  · rintro rfl
    exact h (by decide)

variable {lib : Library} {fuel : Nat} {env : Environment} {arguments : List String} {stdout stderr : Sink}
  {runtime : Runtime} {input path : String} {rest : List String}

private theorem performance_extract (fuel : Nat) (env : Environment) {output : String}
    {rgba : List UInt8} {w : World F}
    {written : F} (hw : w.Heard) (hinput : isVerbosity input = false) (houtput : isVerbosity output = false)
    (hpixels : pixels? lib.codec w.files input = some rgba)
    (hwrite : Volume.write w.files output (Pixel.reveal rgba) = .ok written) :
    (performance lib fuel env ["extract", input, "-o", output] w).1 = .success ∧
      (performance lib fuel env ["extract", input, "-o", output] w).2.files = written := by
  obtain ⟨hrequest, -⟩ : request ["extract", input, "-o", output] =
      ["extract", input, "-o", output] ∧ _ :=
    request_eq_self (by simp [hinput, houtput, show isVerbosity "extract" = false from rfl,
      show isVerbosity "-o" = false from rfl])
  refine performance_of_put lib fuel env hw (by rw [hrequest]; rfl) (put_eq_ok_iff.2 ?_)
  rw [hrequest]
  exact ⟨output, _, .extract (.given output) hpixels, hwrite⟩

/-- What is known of an image that `embed` has made: it holds the program, it is not called like an argument that
asks for debug events and, if no name was asked for, it has the format of its cover. -/
theorem embedded_of_success [ReadsBack F] (hcodec : lib.codec.Lossless)
    (hmemory : ∀ cover outputs, cover? lib.codec files path rest = some (cover, outputs) →
      cover.width * cover.height * 4 < Pixel.wordSize)
    (hrequest : request arguments = "embed" :: input :: path :: rest)
    (hexit : (performance lib fuel env arguments (.start files stdout stderr runtime)).1 = .success) :
    ∃ p cover outputs q rgba, Hides lib.codec files input path rest p cover outputs q ∧
      Pixel.reveal rgba = Pixel.padded p.toList (cover.width * cover.height) ∧
      pixels? lib.codec (performance lib fuel env arguments (.start files stdout stderr runtime)).2.files q = some rgba ∧
      isVerbosity q = false ∧
      (outputs = [] → Format.ofPath q = Format.ofPath path ∧ (Format.ofPath q = .png ∨ Format.ofPath q = .rgba)) := by
  obtain ⟨q, content, hmade, hwrite⟩ := puts_of_success (by rw [hrequest]; rfl) hexit
  rw [hrequest] at hmade
  obtain ⟨p, cover, outputs, rgba, hhides, hreveal, hlength, hstored⟩ := hides_of_makes hmemory hmade
  obtain ⟨hformat, hpositive, houtputs⟩ := cover?_eq_some hcodec hhides.cover_eq
  have hpixels := pixels?_of_stored hcodec hstored hpositive hlength (ReadsBack.read_of_write hwrite)
  have hnamed : outputs = [] → Format.ofPath q = Format.ofPath path := by
    rintro rfl
    obtain rfl : withExtension input (coverExtension path) = q := Option.some.inj hhides.output_eq
    obtain ⟨parts, hparts⟩ := ReadsBack.named_of_write hwrite
    exact ofPath_withExtension hformat hparts
  refine ⟨p, cover, outputs, q, rgba, hhides, hreveal, hpixels, ?_,
    fun hdefault => ⟨hnamed hdefault, hnamed hdefault ▸ hformat⟩⟩
  rcases output?_eq_some hhides.output_eq with ⟨hdefault, -⟩ | hgiven
  · apply isVerbosity_of_format
    rw [hnamed hdefault]
    rcases hformat with hformat | hformat <;> rw [hformat] <;> nofun
  · have hmem : q ∈ request arguments := by
      rw [hrequest]
      simp [houtputs (hgiven ▸ List.mem_cons_of_mem _ List.mem_cons_self)]
    simpa using (List.mem_filter.1 hmem).2

/-- A program that was embedded fits in its cover. It can be extracted again from the image that was made, whatever
the image is called, with zeros behind it. An image without a name of its own has the format of its cover, and
running it is running these bytes. -/
theorem recovered_of_embed [ReadsBack F] (hcodec : lib.codec.Lossless)
    (hmemory : ∀ cover outputs, cover? lib.codec files path rest = some (cover, outputs) →
      cover.width * cover.height * 4 < Pixel.wordSize)
    (hrequest : request arguments = "embed" :: input :: path :: rest)
    (hexit : (performance lib fuel env arguments (.start files stdout stderr runtime)).1 = .success) :
    ∃ p cover outputs q, Hides lib.codec files input path rest p cover outputs q ∧
      let bytes := Pixel.padded p.toList (cover.width * cover.height)
      let made := (performance lib fuel env arguments (.start files stdout stderr runtime)).2.files
      (∀ r fuel env (w : World F), w.files = made → w.Heard → isVerbosity r = false →
        (∃ written, Volume.write made r bytes = .ok written) →
        (performance lib fuel env ["extract", q, "-o", r] w).1 = .success ∧
          Volume.read (performance lib fuel env ["extract", q, "-o", r] w).2.files r = .ok bytes) ∧
      (outputs = [] → Format.ofPath q = Format.ofPath path ∧
        ∀ fuel env (w : World F), w.files = made → w.Heard →
          let ran := Machine.initial.run (.ofList bytes) fuel w.stdout (.start (chosenFilter lib.logger env false).finest)
          (performance lib fuel env ["run", q] w).1 = Exit.ofRun ran ∧
            (performance lib fuel env ["run", q] w).2.stdout = stdoutOf w.stdout ran) := by
  obtain ⟨p, cover, outputs, q, rgba, hhides, hreveal, hpixels, hq, hnamed⟩ :=
    embedded_of_success hcodec hmemory hrequest hexit
  refine ⟨p, cover, outputs, q, hhides, ?_, ?_⟩
  · intro r fuel env w hfiles hw hr ⟨written, hwrite⟩
    rw [← hfiles] at hpixels hwrite
    rw [← hreveal] at hwrite
    obtain ⟨hsuccess, hresult⟩ := performance_extract fuel env hw hq hr hpixels hwrite
    refine ⟨hsuccess, ?_⟩
    rw [hresult, ← hreveal]
    exact ReadsBack.read_of_write hwrite
  · intro hdefault
    obtain ⟨hformat, himage⟩ := hnamed hdefault
    refine ⟨hformat, fun fuel env w hfiles hw => performance_run lib fuel env hw hq ?_⟩
    rw [program?, hfiles, held?_eq_pixels? himage, hpixels, ← hreveal]
    rfl

def byteAndCover : Files.Store :=
  ⟨[(.ofNames ["p.chb".toList], .file [42]), (.ofNames ["c.Rgba".toList], .file [9, 8, 7, 6, 5, 4, 3, 2])]⟩

def embeddedByte : Exit × World Files.Store :=
  performance ⟨Png.codec, .byLevel⟩ 0 ⟨none, none⟩ ["embed", "-v", "p.chb", "c.Rgba", "2", "1", "-o", "i.PnG"]
    (.start byteAndCover .unlimited .unlimited .plain)

def extractedByte : Exit × World Files.Store :=
  performance ⟨Png.codec, .byLevel⟩ 0 ⟨none, none⟩ ["extract", "i.PnG", "-o", "q"]
    (.start embeddedByte.2.files .unlimited .unlimited .plain)

theorem recovered_of_embed_byteAndCover :
    embeddedByte.1 = .success ∧ extractedByte.1 = .success ∧ Volume.read extractedByte.2.files "q" = .ok [42, 0] := by
  have hexit : embeddedByte.1 = .success := by decide +kernel
  have hrequest : request ["embed", "-v", "p.chb", "c.Rgba", "2", "1", "-o", "i.PnG"] =
      "embed" :: "p.chb" :: "c.Rgba" :: ["2", "1", "-o", "i.PnG"] := rfl
  have hcover : cover? Png.codec byteAndCover "c.Rgba" ["2", "1", "-o", "i.PnG"] =
      some (⟨2, 1, [9, 8, 7, 6, 5, 4, 3, 2]⟩, ["-o", "i.PnG"]) := by
    decide +kernel
  have hmemory (cover : Raster) (outputs : List String)
      (h : cover? Png.codec byteAndCover "c.Rgba" ["2", "1", "-o", "i.PnG"] = some (cover, outputs)) :
      cover.width * cover.height * 4 < Pixel.wordSize := by
    cases hcover.symm.trans h
    decide
  have hcodec : (Library.mk Png.codec .byLevel).codec.Lossless := Png.lossless_codec
  obtain ⟨p, cover, outputs, q, hhides, hextract, -⟩ := recovered_of_embed hcodec hmemory hrequest hexit
  have hprogram : program? Png.codec byteAndCover "p.chb" (.ofPath "p.chb") = some (.ofList [42]) := by
    decide +kernel
  obtain rfl : .ofList [42] = p := Option.some.inj (hprogram.symm.trans hhides.program_eq)
  cases hcover.symm.trans hhides.cover_eq
  obtain rfl : "i.PnG" = q := Option.some.inj hhides.output_eq
  have hwritable : (Volume.write embeddedByte.2.files "q" [42, 0]).toOption.isSome = true := by decide +kernel
  obtain ⟨written, hwrite⟩ := Option.isSome_iff_exists.1 hwritable
  exact ⟨hexit, hextract "q" 0 ⟨none, none⟩ (.start embeddedByte.2.files .unlimited .unlimited .plain) rfl rfl rfl
    ⟨written, toOption_eq_some_iff.1 hwrite⟩⟩

end Recovery
end PixelCode.Command
