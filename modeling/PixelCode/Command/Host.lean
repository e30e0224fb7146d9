import PixelCode.Files.Volume
import PixelCode.Image.Raster
import PixelCode.Log
import PixelCode.Machine.Sink

/-! What a command needs from the system it runs on. -/
namespace PixelCode.Command

/-- How a command ends. It fails when the arguments, a file or a stream were not as they should be, and is aborted by a
panic or by a lack of memory. A run that is given up for lack of fuel is unfinished. -/
inductive Exit where
  | success
  | failure
  | faulted
  | aborted
  | exhausted
  | unfinished
  deriving DecidableEq, Repr

namespace Exit

def code : Exit → UInt32
  | success => 0
  | failure => 1
  | faulted => 3
  | aborted => 101
  | exhausted => 134
  | unfinished => 1

end Exit

/-- What a process cannot go on after: the standard output refuses a listing, or the error stream a line; an argument is
no text; or more memory is asked for than can be addressed. -/
inductive Panic where
  | output (reason : String)
  | notice (reason : String)
  | argument (bytes : List UInt8)
  | capacity
  deriving DecidableEq, Repr

namespace Panic

def message : Panic → String
  | output reason => s!"failed printing to stdout: {reason}"
  | notice reason => s!"failed printing to stderr: {reason}"
  | argument _ => "an argument is no valid text"
  | capacity => "capacity overflow"

end Panic

class Host (m : Type → Type) where
  readFile : String → m (Except String (List UInt8))
  writeFile : String → List UInt8 → m (Except String Unit)
  stdout : m Sink
  /-- Passes on what the sink for the standard output has received. -/
  deliver : Sink → m (Except String Unit)
  /-- Tells something on the error stream, which may refuse it for a reason. -/
  report : Notice → m (Option String)
  /-- Tells of a panic on the error stream, whether or not it takes this. -/
  panic : Panic → m Unit
  reserve : Nat → m Bool

def noSpace : String := "No space left on device (os error 28)"

def fullDevice : Sink := ⟨#[], some 0, noSpace, none⟩

structure Runtime where
  report : Panic → List String
  grants : Nat → Bool

/-- What a command can see and change: files, and its two streams. The error stream is not buffered, and its sink is
never flushed; `told` is all that was sent there, taken or not. -/
structure World (F : Type) where
  files : F
  stdout : Sink
  stderr : Sink
  told : Array Notice
  runtime : Runtime

namespace World

variable {F : Type}

def start (files : F) (stdout stderr : Sink) (runtime : Runtime) : World F :=
  ⟨files, stdout, stderr, #[], runtime⟩

def tell (w : World F) (notice : Notice) : World F :=
  { w with stderr := (w.stderr.writeText notice.render).1, told := w.told.push notice }

def tellPanic (w : World F) (p : Panic) : World F :=
  (w.runtime.report p).foldl (fun w line => w.tell (.text (line ++ "\n"))) w

end World

instance {F : Type} [Files.Volume F] : Host (StateM (World F)) where
  readFile path w := (Files.Volume.read w.files path, w)
  writeFile path bytes w :=
    match Files.Volume.write w.files path bytes with
    | .ok files => (.ok (), { w with files })
    | .error reason => (.error reason, w)
  stdout w := (w.stdout, w)
  deliver sink w := (.ok (), { w with stdout := sink })
  report notice w := ((w.stderr.writeText notice.render).2, w.tell notice)
  panic p w := ((), w.tellPanic p)
  reserve size w := (w.runtime.grants size, w)

end PixelCode.Command
