import PixelCode.Assembly.Source
import PixelCode.Command.Input
import PixelCode.Machine.Run

/-! The commands: run, assemble, disassemble, embed and extract. -/
namespace PixelCode.Command

variable {m : Type → Type} [Monad m] [Host m]

def reportFault (f : Fault) : Action m Unit := do
  match ← ExceptT.lift (Host.report (.text (f.message ++ "\n"))) with
  | none => throw .faulted
  | some reason => fail (Ending.refusalMessage reason)

/-- Tells what a run has left. Its text goes to the standard output, its events and, once the text is
flushed, the report of a fault to the error stream. -/
def conclude (s : Settings) : Option Run → Action m Unit
  | none => throw .unfinished
  | some r => do
    r.trace.events.toList.forM fun e => log s e.entry
    match ← ExceptT.lift (Host.deliver r.out), r.flushed with
    | .error reason, _ => fail (Ending.refusalMessage reason)
    | .ok (), .refused reason => fail (Ending.refusalMessage reason)
    | .ok (), .finished => return ()
    | .ok (), .faulted f => reportFault f

def run (s : Settings) : List String → Action m Unit
  | [] => do
    say "error: run requires an input file"
    say "Usage: chroma run <file> [--format bin|hex|rgba|png]"
    throw .failure
  | input :: rest => do
    let p ← readProgram s input (← formatArgument input rest)
    let out ← ExceptT.lift Host.stdout
    conclude s (Machine.initial.run p s.fuel out (.start s.filter.finest))

def assemble : List String → Action m Unit
  | [] => do
    say "error: assemble requires an input file"
    say "Usage: chroma assemble <input.chasm> [-o output.chb]"
    throw .failure
  | input :: rest => do
    let output ← outputArgument (Files.withExtension input "chb") rest
    match Assembly.assemble (← readText input) with
    | .error e => fail e.message
    | .ok p =>
      writeFile output p.toList
      say s!"assembled {p.size} bytes -> {output}"

def disassemble (s : Settings) : List String → Action m Unit
  | [] => do
    say "error: disassemble requires an input file"
    say "Usage: chroma disassemble <file> [--format bin|hex|rgba|png]"
    throw .failure
  | input :: rest => do
    let p ← readProgram s input (← formatArgument input rest)
    let (out, refusal) := (← ExceptT.lift Host.stdout).writeText (Assembly.disassemble p)
    match ← ExceptT.lift (Host.deliver out), refusal with
    | .ok (), none => return ()
    | .ok (), some reason => abort (.output reason)
    | .error reason, _ => abort (.output reason)

/-- Reads a cover image, and returns it with the arguments that are left. An image file knows its
size; that of raw pixels stands in the arguments. -/
def readCover (s : Settings) (path : String) (rest : List String) :
    Action m (Raster × List String) :=
  match Format.ofPath path, rest with
  | .png, rest => return (← readImage s path, rest)
  | .rgba, width :: height :: rest => do
    let width ← dimension "width" width
    let height ← dimension "height" height
    return (⟨width, height, ← readFile path⟩, rest)
  | .rgba, _ => fail "a raw RGBA cover needs a width and a height"
  | _, _ => fail s!"cover '{path}' must be a .png or .rgba image"

def coverExtension (path : String) : String :=
  if Format.ofPath path = .png then "png" else "rgba"

def writeHidden (s : Settings) (output : String) (cover : Raster) (p : Program) : Action m Unit :=
  match Pixel.concealPadded p.toList cover.rgba cover.width cover.height with
  | .error e => fail e.message
  | .ok rgba => do
    writeImage s output { cover with rgba }
    say (s!"embedded {Pixel.area cover.width cover.height} bytes in " ++
      s!"{cover.width}x{cover.height} image -> {output}")

def pad (s : Settings) (size capacity : Nat) : Action m Unit :=
  if size < capacity then do
    log s ⟨.debug, "padding program", [("len", .number size), ("capacity", .number capacity)]⟩
    reserve capacity
  else pure ()

def embed (s : Settings) : List String → Action m Unit
  | input :: path :: rest => do
    let (cover, rest) ← readCover s path rest
    let output ← outputArgument (Files.withExtension input (coverExtension path)) rest
    let p ← readProgram s input (.ofPath input)
    pad s p.size (Pixel.area cover.width cover.height)
    writeHidden s output cover p
  | _ => do
    say "error: embed requires a program and a cover image"
    say "Usage: chroma embed <prog> <cover.png> [-o out.png]"
    say "       chroma embed <prog> <cover.rgba> <width> <height> [-o out.rgba]"
    throw .failure

def extract (s : Settings) : List String → Action m Unit
  | [] => do
    say "error: extract requires an input image"
    say "Usage: chroma extract <image.png|image.rgba> [-o output.chb]"
    throw .failure
  | input :: rest => do
    let output ← outputArgument (Files.withExtension input "chb") rest
    let bytes := Pixel.reveal (← readPixels s input)
    writeFile output bytes
    say s!"extracted {bytes.length} bytes -> {output}"

def usage : List String :=
  ["Usage: chroma <command> [args] [--verbose]",
   "",
   "Commands:",
   "  run <file> [--format bin|hex|rgba|png]          Execute a program",
   "  assemble <input.chasm> [-o output.chb]          Assemble text to bytecode",
   "  disassemble <file> [--format bin|hex|rgba|png]  Disassemble bytecode to text",
   "  embed <prog> <cover.png> [-o out.png]           Hide bytecode in a PNG image",
   "  embed <prog> <cover.rgba> <w> <h> [-o out]      Hide bytecode in a raw RGBA image",
   "  extract <image.png|image.rgba> [-o output.chb]  Recover bytecode from an image"]

def sayUsage : Action m Unit := usage.forM say

def dispatch (s : Settings) : List String → Action m Unit
  | [] => do
    sayUsage
    throw .failure
  | "run" :: rest => run s rest
  | "assemble" :: rest => assemble rest
  | "disassemble" :: rest => disassemble s rest
  | "embed" :: rest => embed s rest
  | "extract" :: rest => extract s rest
  | "--help" :: _ | "-h" :: _ | "help" :: _ => sayUsage
  | other :: _ => do
    say s!"error: unknown command '{other}'"
    say ""
    sayUsage
    throw .failure

def isVerbosity (argument : String) : Bool := argument == "--verbose" || argument == "-v"

def request (arguments : List String) : List String := arguments.filter (! isVerbosity ·)

structure Environment where
  chromaLog : Option (List UInt8)
  rustLog : Option (List UInt8)

/-- The filter expression of an environment. A value that is no text counts as none. -/
def Environment.expression (env : Environment) : Option String :=
  env.chromaLog.bind decode? <|> env.rustLog.bind decode?

/-- The filter for a command: what the environment asks for if it is valid, else debug events for verbose commands and
warnings for others. -/
def chosenFilter (logger : Logger) (env : Environment) (verbose : Bool) : LogFilter :=
  (env.expression.bind logger.parse?).getD (logger.parse (if verbose then "debug" else "warn"))

structure Library where
  codec : ImageCodec
  logger : Logger

def settings (lib : Library) (fuel : Nat) (env : Environment) (arguments : List String) : Settings where
  filter := chosenFilter lib.logger env (arguments.any isVerbosity)
  insists := lib.logger.insists
  codec := lib.codec
  fuel := fuel

def perform (lib : Library) (fuel : Nat) (env : Environment) (arguments : List String) : m Exit := do
  match ← (dispatch (settings lib fuel env arguments) (request arguments)).run with
  | .ok () => return .success
  | .error exit => return exit

def words : List (List UInt8) → Except Panic (List String)
  | [] => .ok []
  | bytes :: rest =>
    match decode? bytes with
    | none => .error (.argument bytes)
    | some word => (words rest).map (word :: ·)

def launch (lib : Library) (fuel : Nat) (env : Environment) (argv : List (List UInt8)) : m Exit :=
  match words argv with
  | .ok arguments => perform lib fuel env (arguments.drop 1)
  | .error p => do
    Host.panic p
    return .aborted

end PixelCode.Command
