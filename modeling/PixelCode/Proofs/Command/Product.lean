import PixelCode.Proofs.Command.Effect
import PixelCode.Proofs.Except
import PixelCode.Proofs.Files.Naming

/-! What the commands make of files. A command that makes something puts it in its output, and changes nothing
else; a command that fails, and one that makes nothing, changes no file at all. -/
namespace PixelCode.Command

open Files (Volume NamedAfter withExtension)

variable {F : Type} [Volume F]

section Contents
variable (codec : ImageCodec) (files : F)

def file? (path : String) : Option (List UInt8) := (Volume.read files path).toOption

def text? (path : String) : Option String := (file? files path).bind decode?

def image? (path : String) : Option Raster :=
  (file? files path).bind fun bytes => (codec.decode bytes).toOption

def held? (path : String) : Format → Option (List UInt8)
  | .bin => file? files path
  | .rgba => (file? files path).map Pixel.reveal
  | .png => (image? codec files path).map (Pixel.reveal ·.rgba)
  | .hex => (text? files path).bind fun text => (Program.ofListing text).toOption.map Program.toList

def program? (path : String) (format : Format) : Option Program :=
  (held? codec files path format).map Program.ofList

def pixels? (path : String) : Option (List UInt8) :=
  if Format.ofPath path = .png then (image? codec files path).map Raster.rgba else file? files path

def dimension? (value : String) : Option Nat :=
  (Text.unsigned? 10 0x10000000000000000 value.toList).filter (0 < ·)

def cover? (path : String) (rest : List String) : Option (Raster × List String) :=
  match Format.ofPath path, rest with
  | .png, rest => (image? codec files path).map (·, rest)
  | .rgba, width :: height :: rest =>
    (dimension? width).bind fun width => (dimension? height).bind fun height =>
      (file? files path).map fun rgba => (⟨width, height, rgba⟩, rest)
  | _, _ => none

end Contents

def format? (input : String) : List String → Option Format
  | [] => some (.ofPath input)
  | ["--format", name] => Format.ofName? name
  | _ => none

def loaded? (codec : ImageCodec) (files : F) : List String → Option Program
  | [] => none
  | input :: rest => (format? input rest).bind (program? codec files input)

def output? (default : String) : List String → Option String
  | [] => some default
  | ["-o", path] => some path
  | _ => none

theorem output?_eq_some {default output : String} {arguments : List String}
    (h : output? default arguments = some output) : arguments = [] ∧ output = default ∨ arguments = ["-o", output] := by
  unfold output? at h
  split at h
  · exact .inl ⟨rfl, (Option.some.inj h).symm⟩
  · cases h
    exact .inr rfl
  · cases h

def stored? (codec : ImageCodec) (path : String) (image : Raster) : Option (List UInt8) :=
  if Format.ofPath path = .png then
    if 0x100000000 ≤ image.width ∨ 0x100000000 ≤ image.height then none
    else if image.rgba.length < 4 * (image.width * image.height) then none
    else some (codec.encode image)
  else some image.rgba

def padding (runtime : Runtime) (size capacity : Nat) : Except Exit Unit :=
  if size < capacity then reserved runtime capacity else .ok ()

section Products
variable (codec : ImageCodec) (runtime : Runtime) (files : F)

def assembled : List String → Except Exit (String × List UInt8)
  | [] => .error .failure
  | input :: rest => do
    let output ← orFail (output? (withExtension input "chb") rest)
    let text ← orFail (text? files input)
    let p ← orFail (Assembly.assemble text).toOption
    return (output, p.toList)

/-- The path and the bytes of the image that `embed` makes: the cover with a byte of the program in each pixel,
and zeros behind the program. -/
def embedded : List String → Except Exit (String × List UInt8)
  | input :: path :: rest => do
    let (cover, rest) ← orFail (cover? codec files path rest)
    let output ← orFail (output? (withExtension input (coverExtension path)) rest)
    let p ← orFail (program? codec files input (.ofPath input))
    let capacity := Pixel.area cover.width cover.height
    padding runtime p.size capacity
    let rgba ← orFail (Pixel.conceal (Pixel.padded p.toList capacity) cover.rgba cover.width cover.height).toOption
    let image ← orFail (stored? codec output { cover with rgba })
    return (output, image)
  | _ => .error .failure

def extracted : List String → Except Exit (String × List UInt8)
  | [] => .error .failure
  | input :: rest => do
    let output ← orFail (output? (withExtension input "chb") rest)
    let rgba ← orFail (pixels? codec files input)
    return (output, Pixel.reveal rgba)

def product : List String → Except Exit (String × List UInt8)
  | "assemble" :: rest => assembled files rest
  | "embed" :: rest => embedded codec runtime files rest
  | "extract" :: rest => extracted codec files rest
  | _ => .error .failure

def put (made : Except Exit (String × List UInt8)) : Except Exit F :=
  made.bind fun (output, bytes) => orFail (Volume.write files output bytes).toOption

end Products

section Specification

theorem orFail_eq_ok_iff {α : Type} {x : Option α} {a : α} : orFail x = .ok a ↔ x = some a := by
  cases x <;> simp [orFail]

/-- The output that the arguments behind an input ask for. Without any it is named after the input. -/
inductive OutputFor (extension input : String) : List String → String → Prop
  | given (path : String) : OutputFor extension input ["-o", path] path
  | default {output : String} (h : NamedAfter extension input output) : OutputFor extension input [] output

private theorem output?_eq_some_iff {extension input output : String} {arguments : List String}
    (hslash : '/' ∉ extension.toList) :
    output? (withExtension input extension) arguments = some output ↔ OutputFor extension input arguments output := by
  constructor
  · intro h
    rcases output?_eq_some h with ⟨rfl, rfl⟩ | rfl
    · exact .default ((Files.namedAfter_iff hslash).2 rfl)
    · exact .given output
  · rintro (_ | h)
    · rfl
    · rw [(Files.namedAfter_iff hslash).1 h]
      rfl

/-- What a command makes of the files: a path, and the bytes for the file there. An image is the cover with a byte of
the program, or of the zeros behind it, in each pixel. -/
inductive Makes (codec : ImageCodec) (runtime : Runtime) (files : F) : List String → String → List UInt8 → Prop
  | assemble {input output text : String} {rest : List String} {p : Program}
    (houtput : OutputFor "chb" input rest output) (htext : text? files input = some text)
    (hprogram : Assembly.assemble text = .ok p) :
    Makes codec runtime files ("assemble" :: input :: rest) output p.toList
  | embed {input path extension output : String} {rest outputs : List String} {cover : Raster} {p : Program}
    {rgba bytes : List UInt8}
    (hextension : Format.ofPath path = .png ∧ extension = "png" ∨ Format.ofPath path = .rgba ∧ extension = "rgba")
    (hcover : cover? codec files path rest = some (cover, outputs))
    (houtput : OutputFor extension input outputs output)
    (hprogram : program? codec files input (.ofPath input) = some p)
    (hmemory : padding runtime p.size (Pixel.area cover.width cover.height) = .ok ())
    (hhidden : Pixel.conceal (Pixel.padded p.toList (Pixel.area cover.width cover.height)) cover.rgba cover.width
      cover.height = .ok rgba)
    (hstored : stored? codec output { cover with rgba } = some bytes) :
    Makes codec runtime files ("embed" :: input :: path :: rest) output bytes
  | extract {input output : String} {rest : List String} {rgba : List UInt8}
    (houtput : OutputFor "chb" input rest output) (hpixels : pixels? codec files input = some rgba) :
    Makes codec runtime files ("extract" :: input :: rest) output (Pixel.reveal rgba)

variable {codec : ImageCodec} {runtime : Runtime} {files : F} {output : String} {bytes : List UInt8}

/-- A cover has one of the two formats of images. -/
theorem format_of_cover {path : String} {rest outputs : List String} {cover : Raster}
    (h : cover? codec files path rest = some (cover, outputs)) :
    Format.ofPath path = .png ∨ Format.ofPath path = .rgba := by
  unfold cover? at h
  split at h
  next hformat => exact .inl hformat
  next hformat => exact .inr hformat
  · cases h

private theorem coverExtension_eq {path extension : String}
    (h : Format.ofPath path = .png ∧ extension = "png" ∨ Format.ofPath path = .rgba ∧ extension = "rgba") :
    coverExtension path = extension ∧ '/' ∉ extension.toList := by
  rcases h with ⟨hpng, rfl⟩ | ⟨hrgba, rfl⟩
  · exact ⟨by rw [coverExtension, if_pos hpng], by decide⟩
  · exact ⟨by rw [coverExtension, if_neg (by rw [hrgba]; nofun)], by decide⟩

private theorem outputFor_of_cover {input path extension output : String} {outputs : List String}
    (h : Format.ofPath path = .png ∧ extension = "png" ∨ Format.ofPath path = .rgba ∧ extension = "rgba") :
    output? (withExtension input (coverExtension path)) outputs = some output ↔
      OutputFor extension input outputs output := by
  obtain ⟨hextension, hslash⟩ := coverExtension_eq h
  rw [hextension]
  exact output?_eq_some_iff hslash

private theorem makes_of_assembled {rest : List String}
    (h : assembled files rest = .ok (output, bytes)) :
    Makes codec runtime files ("assemble" :: rest) output bytes := by
  cases rest with
  | nil => cases h
  | cons input rest =>
    obtain ⟨output, houtput, h⟩ := bind_eq_ok_iff.1 h
    obtain ⟨text, htext, h⟩ := bind_eq_ok_iff.1 h
    obtain ⟨p, hprogram, h⟩ := bind_eq_ok_iff.1 h
    cases h
    exact .assemble ((output?_eq_some_iff (by decide)).1 (orFail_eq_ok_iff.1 houtput)) (orFail_eq_ok_iff.1 htext)
      (toOption_eq_some_iff.1 (orFail_eq_ok_iff.1 hprogram))

private theorem makes_of_embedded {rest : List String}
    (h : embedded codec runtime files rest = .ok (output, bytes)) :
    Makes codec runtime files ("embed" :: rest) output bytes := by
  match rest with
  | [] => cases h
  | [_] => cases h
  | input :: path :: rest =>
    obtain ⟨⟨cover, outputs⟩, hcover, h⟩ := bind_eq_ok_iff.1 h
    obtain ⟨output, houtput, h⟩ := bind_eq_ok_iff.1 h
    obtain ⟨p, hprogram, h⟩ := bind_eq_ok_iff.1 h
    obtain ⟨⟨⟩, hmemory, h⟩ := bind_eq_ok_iff.1 h
    obtain ⟨rgba, hhidden, h⟩ := bind_eq_ok_iff.1 h
    obtain ⟨image, hstored, h⟩ := bind_eq_ok_iff.1 h
    cases h
    have hcover := orFail_eq_ok_iff.1 hcover
    have hmade {extension : String}
        (h : Format.ofPath path = .png ∧ extension = "png" ∨ Format.ofPath path = .rgba ∧ extension = "rgba") :
        Makes codec runtime files ("embed" :: input :: path :: rest) output bytes :=
      .embed h hcover ((outputFor_of_cover h).1 (orFail_eq_ok_iff.1 houtput)) (orFail_eq_ok_iff.1 hprogram) hmemory
        (toOption_eq_some_iff.1 (orFail_eq_ok_iff.1 hhidden)) (orFail_eq_ok_iff.1 hstored)
    rcases format_of_cover hcover with hpng | hrgba
    · exact hmade (.inl ⟨hpng, rfl⟩)
    · exact hmade (.inr ⟨hrgba, rfl⟩)

private theorem makes_of_extracted {rest : List String}
    (h : extracted codec files rest = .ok (output, bytes)) :
    Makes codec runtime files ("extract" :: rest) output bytes := by
  cases rest with
  | nil => cases h
  | cons input rest =>
    obtain ⟨output, houtput, h⟩ := bind_eq_ok_iff.1 h
    obtain ⟨rgba, hpixels, h⟩ := bind_eq_ok_iff.1 h
    cases h
    exact .extract ((output?_eq_some_iff (by decide)).1 (orFail_eq_ok_iff.1 houtput)) (orFail_eq_ok_iff.1 hpixels)

/-- The product of a command is what it makes. -/
theorem product_eq_ok_iff {request : List String} :
    product codec runtime files request = .ok (output, bytes) ↔ Makes codec runtime files request output bytes := by
  constructor
  · intro h
    unfold product at h
    split at h
    · exact makes_of_assembled h
    · exact makes_of_embedded h
    · exact makes_of_extracted h
    · cases h
  · intro h
    cases h with
    | assemble houtput htext hprogram =>
      refine bind_eq_ok_iff.2 ⟨_, orFail_eq_ok_iff.2 ((output?_eq_some_iff (by decide)).2 houtput), ?_⟩
      refine bind_eq_ok_iff.2 ⟨_, orFail_eq_ok_iff.2 htext, ?_⟩
      exact bind_eq_ok_iff.2 ⟨_, orFail_eq_ok_iff.2 (toOption_eq_some_iff.2 hprogram), rfl⟩
    | embed hextension hcover houtput hprogram hmemory hhidden hstored =>
      refine bind_eq_ok_iff.2 ⟨_, orFail_eq_ok_iff.2 hcover, ?_⟩
      refine bind_eq_ok_iff.2 ⟨_, orFail_eq_ok_iff.2 ((outputFor_of_cover hextension).2 houtput), ?_⟩
      refine bind_eq_ok_iff.2 ⟨_, orFail_eq_ok_iff.2 hprogram, bind_eq_ok_iff.2 ⟨_, hmemory, ?_⟩⟩
      refine bind_eq_ok_iff.2 ⟨_, orFail_eq_ok_iff.2 (toOption_eq_some_iff.2 hhidden), ?_⟩
      exact bind_eq_ok_iff.2 ⟨_, orFail_eq_ok_iff.2 hstored, rfl⟩
    | extract houtput hpixels =>
      refine bind_eq_ok_iff.2 ⟨_, orFail_eq_ok_iff.2 ((output?_eq_some_iff (by decide)).2 houtput), ?_⟩
      exact bind_eq_ok_iff.2 ⟨_, orFail_eq_ok_iff.2 hpixels, rfl⟩

def Puts (codec : ImageCodec) (runtime : Runtime) (files : F) (request : List String) (written : F) : Prop :=
  ∃ output bytes, Makes codec runtime files request output bytes ∧ Volume.write files output bytes = .ok written

theorem put_eq_ok_iff {request : List String} {written : F} :
    put files (product codec runtime files request) = .ok written ↔ Puts codec runtime files request written := by
  constructor
  · intro h
    obtain ⟨⟨output, bytes⟩, hmade, hwrite⟩ := bind_eq_ok_iff.1 h
    exact ⟨output, bytes, product_eq_ok_iff.1 hmade, toOption_eq_some_iff.1 (orFail_eq_ok_iff.1 hwrite)⟩
  · rintro ⟨output, bytes, hmakes, hwrite⟩
    exact bind_eq_ok_iff.2 ⟨(output, bytes), product_eq_ok_iff.2 hmakes,
      orFail_eq_ok_iff.2 (toOption_eq_some_iff.2 hwrite)⟩

/-- A command line asks for more memory than there is: for the zeros that fill a cover. -/
inductive Exhausts (codec : ImageCodec) (runtime : Runtime) (files : F) : List String → Exit → Prop
  | embed {input path : String} {rest outputs : List String} {cover : Raster} {size : Nat} {exit : Exit}
    (hcover : cover? codec files path rest = some (cover, outputs))
    (hmemory : padding runtime size (Pixel.area cover.width cover.height) = .error exit) :
    Exhausts codec runtime files ("embed" :: input :: path :: rest) exit

def FailsOr {α : Type} (other : Exit → Prop) (x : Except Exit α) : Prop :=
  ∀ ⦃exit⦄, x = .error exit → exit = .failure ∨ other exit

section FailsOr
variable {α β : Type} {other : Exit → Prop}

theorem FailsOr.ok (a : α) : FailsOr other (.ok a) := fun _ h => nomatch h

theorem FailsOr.failure : FailsOr other (.error .failure : Except Exit α) := by
  intro exit h
  exact .inl (Except.error.inj h).symm

theorem FailsOr.orFail (x : Option α) : FailsOr other (orFail x) := by
  cases x with
  | none => exact .failure
  | some a => exact .ok a

theorem FailsOr.bind {x : Except Exit α} {f : α → Except Exit β} (hx : FailsOr other x)
    (hf : ∀ a, x = .ok a → FailsOr other (f a)) : FailsOr other (x >>= f) := by
  intro exit h
  cases x with
  | error e => exact hx (congrArg Except.error (Except.error.inj h))
  | ok a => exact hf a rfl h

end FailsOr

private theorem failsOr_product (codec : ImageCodec) (runtime : Runtime) (files : F)
    (request : List String) :
    FailsOr (Exhausts codec runtime files request) (product codec runtime files request) := by
  unfold product
  split
  next rest =>
    cases rest with
    | nil => exact .failure
    | cons input rest => exact .bind (.orFail _) fun _ _ => .bind (.orFail _) fun _ _ => .bind (.orFail _) fun _ _ => .ok _
  next rest =>
    match rest with
    | [] => exact .failure
    | [_] => exact .failure
    | input :: path :: rest =>
      refine .bind (.orFail _) fun (cover, outputs) hcover => .bind (.orFail _) fun _ _ => .bind (.orFail _) fun p _ =>
        .bind (fun exit hmemory => ?_) fun _ _ => .bind (.orFail _) fun _ _ => .bind (.orFail _) fun _ _ => .ok _
      exact .inr (.embed (orFail_eq_ok_iff.1 hcover) hmemory)
  next rest =>
    cases rest with
    | nil => exact .failure
    | cons input rest => exact .bind (.orFail _) fun _ _ => .bind (.orFail _) fun _ _ => .ok _
  · exact .failure

theorem failsOr_put (codec : ImageCodec) (runtime : Runtime) (files : F) (request : List String) :
    FailsOr (Exhausts codec runtime files request) (put files (product codec runtime files request)) :=
  .bind (failsOr_product codec runtime files request) fun _ _ => .orFail _

theorem Exhausts.exit_eq {request : List String} {exit : Exit} (h : Exhausts codec runtime files request exit) :
    exit = .aborted ∨ exit = .exhausted := by
  obtain ⟨-, hmemory⟩ := h
  unfold padding reserved at hmemory
  repeat' split at hmemory
  · exact .inl (Except.error.inj hmemory).symm
  · cases hmemory
  · exact .inr (Except.error.inj hmemory).symm
  · cases hmemory

end Specification

section Reading
variable (s : Settings)

theorem Asks.readText (path : String) :
    Asks (readText path : Action (StateM (World F)) String) (text? · path) := by
  unfold Command.readText
  refine (Asks.readFile path).bind fun bytes => (?_ : Asks _ fun _ => decode? bytes)
  cases decode? bytes with
  | none => exact .fail _
  | some text => exact .pure text

theorem Asks.readImage (path : String) :
    Asks (readImage s path : Action (StateM (World F)) Raster) (image? s.codec · path) := by
  unfold Command.readImage
  refine (Asks.readFile path).bind fun bytes => (?_ : Asks _ fun _ => (s.codec.decode bytes).toOption)
  cases s.codec.decode bytes with
  | error reason => exact .fail _
  | ok image => exact (Asks.log s _).bind fun _ => .pure image

theorem Asks.readBytes (path : String) (format : Format) :
    Asks (readBytes s path format : Action (StateM (World F)) (List UInt8)) (held? s.codec · path format) := by
  cases format with
  | bin => exact .readFile path
  | rgba => exact (Asks.readFile path).map _
  | png => exact (Asks.readImage s path).map _
  | hex =>
    refine (Asks.readText path).bind fun text =>
      (?_ : Asks _ fun _ => (Program.ofListing text).toOption.map Program.toList)
    cases Program.ofListing text with
    | error e => exact .fail _
    | ok p => exact .pure p.toList

theorem Asks.readProgram (path : String) (format : Format) :
    Asks (readProgram s path format : Action (StateM (World F)) Program) (program? s.codec · path format) := by
  simp only [program?, Option.map_eq_bind]
  exact (Asks.readBytes s path format).bind fun bytes =>
    (Asks.log s _).bind fun _ => .pure (Program.ofList bytes)

theorem Asks.outputArgument (default : String) (arguments : List String) :
    Asks (outputArgument default arguments : Action (StateM (World F)) String) fun _ =>
      output? default arguments := by
  unfold Command.outputArgument
  split
  · exact .pure default
  · exact .pure _
  · simp only [output?]
    exact .fail _

theorem Asks.dimension (name value : String) :
    Asks (dimension name value : Action (StateM (World F)) Nat) fun _ => dimension? value := by
  unfold Command.dimension dimension?
  cases Text.unsigned? 10 0x10000000000000000 value.toList with
  | none => exact .fail _
  | some n =>
    cases n with
    | zero => exact .fail _
    | succ n => exact .pure (n + 1)

theorem Asks.readCover (path : String) (rest : List String) :
    Asks (readCover s path rest : Action (StateM (World F)) (Raster × List String))
      (cover? s.codec · path rest) := by
  unfold Command.readCover cover?
  cases Format.ofPath path with
  | png => exact (Asks.readImage s path).map (·, rest)
  | bin => exact Asks.fail _
  | hex => exact Asks.fail _
  | rgba =>
    match rest with
    | [] => exact Asks.fail _
    | [_] => exact Asks.fail _
    | width :: height :: rest =>
      exact (Asks.dimension "width" width).bind fun width => (Asks.dimension "height" height).bind fun height =>
        (Asks.readFile path).map fun rgba => (Raster.mk width height rgba, rest)

theorem Asks.readPixels (path : String) :
    Asks (readPixels s path : Action (StateM (World F)) (List UInt8)) (pixels? s.codec · path) := by
  unfold Command.readPixels pixels?
  cases Format.ofPath path with
  | png => exact (Asks.readImage s path).map Raster.rgba
  | bin => exact .readFile path
  | hex => exact .readFile path
  | rgba => exact .readFile path

theorem Asks.formatArgument (input : String) (arguments : List String) :
    Asks (formatArgument input arguments : Action (StateM (World F)) Format) fun _ =>
      format? input arguments := by
  unfold Command.formatArgument
  split
  · exact .pure _
  next name =>
    rw [format?]
    cases Format.ofName? name with
    | none => exact .fail _
    | some format => exact .pure format
  · simp only [format?]
    exact .fail _

end Reading

section Loading
variable (s : Settings) {input : String} {rest : List String} {w : World F}
  (f : Program → Action (StateM (World F)) Unit)

/-- A program that can be loaded leaves what follows to be done with it. -/
theorem outcome_of_loaded (hw : w.Heard) {p : Program} (h : loaded? s.codec w.files (input :: rest) = some p) :
    ∃ w', w.Beside w' ∧
      outcome (formatArgument input rest >>= fun format => readProgram s input format >>= f) w = outcome (f p) w' := by
  have ha := (Asks.formatArgument (F := F) input rest).bind fun format => Asks.readProgram s input format
  obtain ⟨w', -, hbeside, hdone⟩ := ha.outcome_bind_of_some hw h f
  exact ⟨w', hbeside, by rw [← hdone, bind_assoc]⟩

theorem outcome_of_not_loaded (hw : w.Heard) (h : loaded? s.codec w.files (input :: rest) = none) :
    ∃ w', w.Beside w' ∧
      outcome (formatArgument input rest >>= fun format => readProgram s input format >>= f) w =
        (.error .failure, w') := by
  have ha := (Asks.formatArgument (F := F) input rest).bind fun format => Asks.readProgram s input format
  obtain ⟨w', hbeside, hended⟩ := ha.outcome_bind_of_none hw h f
  exact ⟨w', hbeside, by rw [← hended, bind_assoc]⟩

end Loading

section Making
variable (s : Settings)

private theorem put_bind {α : Type} (files : F) (x : Except Exit α)
    (f : α → Except Exit (String × List UInt8)) :
    put files (x >>= f) = x.bind fun a => put files (f a) := by
  cases x with
  | error exit => rfl
  | ok a => rfl

theorem Changes.writeImage (path : String) (image : Raster) :
    Changes (writeImage s path image : Action (StateM (World F)) Unit) fun _ files =>
      put files (orFail (stored? s.codec path image) >>= fun bytes => pure (path, bytes)) := by
  unfold Command.writeImage stored?
  cases hformat : Format.ofPath path with
  | bin => exact .writeFile path image.rgba
  | hex => exact .writeFile path image.rgba
  | rgba => exact .writeFile path image.rgba
  | png =>
    simp only [if_true]
    split
    · exact .fail _
    · split
      · exact .fail _
      · exact .writeFile path (s.codec.encode image)

theorem Changes.assemble (arguments : List String) :
    Changes (assemble arguments : Action (StateM (World F)) Unit) fun _ files =>
      put files (assembled files arguments) := by
  unfold Command.assemble assembled
  cases arguments with
  | nil => exact (Asks.refuse.tell _).tell _
  | cons input rest =>
    simp only [put_bind]
    refine .bind (Asks.outputArgument _ rest) fun output => .bind (Asks.readText input) fun text => ?_
    cases Assembly.assemble text with
    | error e => exact .fail _
    | ok p => exact (Changes.writeFile output p.toList).say _

theorem Changes.writeHidden (output : String) (cover : Raster) (p : Program) :
    Changes (writeHidden s output cover p : Action (StateM (World F)) Unit) fun _ files =>
      (orFail (Pixel.conceal (Pixel.padded p.toList (Pixel.area cover.width cover.height)) cover.rgba cover.width
        cover.height).toOption).bind fun rgba =>
          put files (orFail (stored? s.codec output { cover with rgba }) >>= fun bytes => pure (output, bytes)) := by
  rw [Command.writeHidden, Pixel.concealPadded_eq]
  cases Pixel.conceal (Pixel.padded p.toList (Pixel.area cover.width cover.height)) cover.rgba cover.width
    cover.height with
  | error e => exact .fail _
  | ok rgba => exact (Changes.writeImage s output { cover with rgba }).say _

theorem Finds.pad (size capacity : Nat) :
    Finds (pad s size capacity : Action (StateM (World F)) Unit) fun runtime _ => padding runtime size capacity := by
  unfold Command.pad padding
  split
  · exact .bind (Asks.log s _) fun _ => .reserve capacity
  · exact Asks.pure ()

theorem Changes.embed (arguments : List String) :
    Changes (embed s arguments : Action (StateM (World F)) Unit) fun runtime files =>
      put files (embedded s.codec runtime files arguments) := by
  unfold Command.embed embedded
  match arguments with
  | [] => exact ((Asks.refuse.tell _).tell _).tell _
  | [_] => exact ((Asks.refuse.tell _).tell _).tell _
  | input :: path :: rest =>
    simp only [put_bind]
    refine .bind (Asks.readCover s path rest) fun (cover, rest) => .bind (Asks.outputArgument _ rest) fun output =>
      .bind (Asks.readProgram s input _) fun p => .bind (Finds.pad s _ _) fun _ => ?_
    have hwrite := Changes.writeHidden (F := F) s output cover p
    simp only [put_bind] at hwrite
    exact hwrite

theorem Changes.extract (arguments : List String) :
    Changes (extract s arguments : Action (StateM (World F)) Unit) fun _ files =>
      put files (extracted s.codec files arguments) := by
  unfold Command.extract extracted
  cases arguments with
  | nil => exact (Asks.refuse.tell _).tell _
  | cons input rest =>
    simp only [put_bind]
    exact .bind (Asks.outputArgument _ rest) fun output => .bind (Asks.readPixels s input) fun rgba =>
      (Changes.writeFile output (Pixel.reveal rgba)).say _

end Making

theorem Asks.logAll (s : Settings) (events : List Event) :
    Asks (events.forM fun e => Command.log s e.entry : Action (StateM (World F)) Unit) fun _ => some () :=
  .forM events fun e => .log s e.entry

theorem Asks.sayUsage : Asks (sayUsage : Action (StateM (World F)) Unit) fun _ => some () :=
  .forM usage .say

def makes : List String → Bool
  | "assemble" :: _ | "embed" :: _ | "extract" :: _ => true
  | _ => false

private theorem changes_dispatch (s : Settings) {request : List String} (h : makes request = true) :
    Changes (dispatch s request : Action (StateM (World F)) Unit) fun runtime files =>
      put files (product s.codec runtime files request) := by
  unfold makes at h
  split at h
  · exact .assemble _
  · exact .embed s _
  · exact .extract s _
  · cases h

section Perform
variable (lib : Library) (fuel : Nat) (env : Environment) {arguments : List String} {w : World F}

def performance (lib : Library) (fuel : Nat) (env : Environment) (arguments : List String) (w : World F) :
    Exit × World F :=
  (perform lib fuel env arguments : StateM (World F) Exit).run w

def Exit.ofOutcome : Except Exit Unit → Exit
  | .ok () => .success
  | .error exit => exit

theorem performance_eq (arguments : List String) (w : World F) :
    performance lib fuel env arguments w =
      let done := outcome (dispatch (settings lib fuel env arguments) (request arguments)) w
      (.ofOutcome done.1, done.2) := by
  cases h : outcome (dispatch (settings lib fuel env arguments) (request arguments)) w with
  | mk result left =>
    rw [performance, perform, StateT.run_bind]
    unfold outcome at h
    rw [h]
    cases result <;> rfl

variable {lib fuel env} in
theorem performance_of_outcome {result : Except Exit Unit} {w' : World F}
    (h : outcome (dispatch (settings lib fuel env arguments) (request arguments)) w = (result, w')) :
    performance lib fuel env arguments w = (.ofOutcome result, w') := by
  rw [performance_eq, h]

/-- A command that makes a file succeeds if the file can be made and written. -/
theorem performance_of_put (hw : w.Heard) {files : F} (hmakes : makes (request arguments) = true)
    (hput : put w.files (product lib.codec w.runtime w.files (request arguments)) = .ok files) :
    (performance lib fuel env arguments w).1 = .success ∧
      (performance lib fuel env arguments w).2.files = files := by
  have hchanges := changes_dispatch (F := F) (settings lib fuel env arguments) hmakes
  obtain ⟨w', hfiles, -, houtcome⟩ := hchanges.done hw (congrArg (Except.map ((), ·)) hput)
  rw [performance_of_outcome houtcome]
  exact ⟨rfl, hfiles⟩

/-- Otherwise it ends with what is in the way, and keeps the files. -/
theorem performance_of_no_put (hw : w.Heard) {exit : Exit} (hmakes : makes (request arguments) = true)
    (hput : put w.files (product lib.codec w.runtime w.files (request arguments)) = .error exit) :
    (performance lib fuel env arguments w).1 = exit ∧
      (performance lib fuel env arguments w).2.files = w.files := by
  have hchanges := changes_dispatch (F := F) (settings lib fuel env arguments) hmakes
  obtain ⟨w', hfiles, -, houtcome⟩ := hchanges.ended hw (congrArg (Except.map ((), ·)) hput)
  rw [performance_of_outcome houtcome]
  exact ⟨rfl, hfiles⟩

def invocation (lib : Library) (fuel : Nat) (env : Environment) (argv : List (List UInt8)) (w : World F) :
    Exit × World F :=
  (launch lib fuel env argv : StateM (World F) Exit).run w

def requested (argv : List (List UInt8)) : Except Panic (List String) :=
  (words argv).map fun arguments => request (arguments.drop 1)

variable {argv : List (List UInt8)}

theorem invocation_of_words (h : words argv = .ok arguments) (w : World F) :
    invocation lib fuel env argv w = performance lib fuel env (arguments.drop 1) w := by
  rw [invocation, launch, h]
  rfl

/-- Arguments that are no texts end the process at once. -/
theorem invocation_of_no_words {p : Panic} (h : words argv = .error p) (w : World F) :
    invocation lib fuel env argv w = (.aborted, w.tellPanic p) := by
  rw [invocation, launch, h]
  rfl

end Perform
end PixelCode.Command
