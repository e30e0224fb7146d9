import PixelCode.Command.Format
import PixelCode.Command.Host
import PixelCode.Pixel
import PixelCode.Program.Listing

/-! Files and arguments as the commands read them, with the messages for what is wrong. -/
namespace PixelCode.Command

/-- What is fixed for the whole of a command; `fuel` is how many instructions a run may take. -/
structure Settings where
  filter : LogFilter
  insists : Bool
  codec : ImageCodec
  fuel : Nat

abbrev Action (m : Type → Type) := ExceptT Exit m

variable {m : Type → Type} [Monad m] [Host m]

def abort {α : Type} (p : Panic) : Action m α := do
  ExceptT.lift (Host.panic p)
  throw .aborted

def say (line : String) : Action m Unit := do
  match ← ExceptT.lift (Host.report (.text (line ++ "\n"))) with
  | none => return ()
  | some reason => abort (.notice reason)

def fail {α : Type} (message : String) : Action m α := do
  say s!"error: {message}"
  throw .failure

def log (s : Settings) (e : Entry) : Action m Unit :=
  if s.filter.admits e then do
    match ← ExceptT.lift (Host.report (.log e)), s.insists with
    | some reason, true => abort (.notice reason)
    | _, _ => return ()
  else pure ()

def readFile (path : String) : Action m (List UInt8) := do
  match ← ExceptT.lift (Host.readFile path) with
  | .ok bytes => return bytes
  | .error reason => fail s!"cannot read '{path}': {reason}"

def decode? (bytes : List UInt8) : Option String := String.fromUTF8? ⟨bytes.toArray⟩

def readText (path : String) : Action m String := do
  match decode? (← readFile path) with
  | some text => return text
  | none => fail s!"cannot read '{path}': stream did not contain valid UTF-8"

def writeFile (path : String) (bytes : List UInt8) : Action m Unit := do
  match ← ExceptT.lift (Host.writeFile path bytes) with
  | .ok () => return ()
  | .error reason => fail s!"cannot write '{path}': {reason}"

def readImage (s : Settings) (path : String) : Action m Raster := do
  match s.codec.decode (← readFile path) with
  | .error reason => fail s!"cannot decode '{path}': {reason}"
  | .ok image =>
    log s ⟨.debug, "png decoded",
      [("path", .quoted path), ("width", .number image.width), ("height", .number image.height)]⟩
    return image

def readPixels (s : Settings) (path : String) : Action m (List UInt8) :=
  match Format.ofPath path with
  | .png => return (← readImage s path).rgba
  | _ => readFile path

def writeImage (s : Settings) (path : String) (image : Raster) : Action m Unit :=
  match Format.ofPath path with
  | .png =>
    if 0x100000000 ≤ image.width ∨ 0x100000000 ≤ image.height then fail "image too large for PNG"
    else if image.rgba.length < 4 * (image.width * image.height) then
      fail s!"pixel buffer does not match {image.width}x{image.height}"
    else writeFile path (s.codec.encode image)
  | _ => writeFile path image.rgba

def readBytes (s : Settings) (path : String) : Format → Action m (List UInt8)
  | .bin => readFile path
  | .rgba => return Pixel.reveal (← readFile path)
  | .png => return Pixel.reveal (← readImage s path).rgba
  | .hex => do
    match Program.ofListing (← readText path) with
    | .ok p => return p.toList
    | .error e => fail s!"'{path}': {e.message}"

def readProgram (s : Settings) (path : String) (format : Format) : Action m Program := do
  let p := Program.ofList (← readBytes s path format)
  log s ⟨.debug, "program loaded",
    [("path", .quoted path), ("format", .plain format.label), ("len", .number p.size)]⟩
  return p

def unexpected {α : Type} (arguments : List String) : Action m α :=
  fail ("unexpected arguments: " ++ " ".intercalate arguments)

def formatArgument (input : String) : List String → Action m Format
  | [] => return .ofPath input
  | ["--format", name] =>
    match Format.ofName? name with
    | some format => return format
    | none => fail s!"unknown format '{name}' (expected bin, hex, rgba or png)"
  | arguments => unexpected arguments

def outputArgument (default : String) : List String → Action m String
  | [] => return default
  | ["-o", path] => return path
  | arguments => unexpected arguments

def dimension (name value : String) : Action m Nat :=
  match Text.unsigned? 10 0x10000000000000000 value.toList with
  | some (n + 1) => return n + 1
  | _ => fail s!"invalid {name} '{value}'"

/-- Asks for memory. Half of what a word can count is all that can be addressed. -/
def reserve (size : Nat) : Action m Unit := do
  if Pixel.wordSize / 2 ≤ size then abort .capacity
  else if ← ExceptT.lift (Host.reserve size) then return ()
  else throw .exhausted

end PixelCode.Command
