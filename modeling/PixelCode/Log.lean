import PixelCode.Machine.Event
import PixelCode.Text.Quoted

/-! Log lines and what else is told on the error stream. -/
namespace PixelCode

structure Entry where
  level : Level
  message : String
  fields : List (String × Field)
  deriving DecidableEq, Repr

namespace Field

def text : Field → String
  | number n => toString n
  | plain s => s
  | quoted s => Text.quoted s

end Field

namespace Entry

def line (e : Entry) : String :=
  " ".intercalate
    (e.level.name :: e.message :: e.fields.map fun (name, value) => name ++ "=" ++ value.text)

end Entry

def Event.entry (e : Event) : Entry := ⟨e.level, e.message, e.fields⟩

/-- Something told on the error stream: an entry of the log, or a text as it stands. -/
inductive Notice where
  | log (e : Entry)
  | text (s : String)
  deriving DecidableEq, Repr

namespace Notice

def render : Notice → String
  | log e => e.line ++ "\n"
  | text s => s

end Notice

/-- Which entries are logged. The rule is asked for entries up to the finest level only; with `some .trace` it is any
predicate. -/
structure LogFilter where
  finest : Filter
  rule : Entry → Bool

namespace LogFilter

def admits (f : LogFilter) (e : Entry) : Bool := f.finest.admits e.level && f.rule e

def ofName? (name : String) : Option LogFilter :=
  match name.map Char.toLower with
  | "off" => some ⟨none, fun _ => true⟩
  | "error" => some ⟨some .error, fun _ => true⟩
  | "warn" => some ⟨some .warn, fun _ => true⟩
  | "info" => some ⟨some .info, fun _ => true⟩
  | "debug" => some ⟨some .debug, fun _ => true⟩
  | "trace" => some ⟨some .trace, fun _ => true⟩
  | _ => none

end LogFilter

/-- What logs entries. An expression may ask for a filter; what to make of one that has to be taken is given by `parse`.
A logger that insists does not go on when a line is refused. -/
structure Logger where
  parse? : String → Option LogFilter
  parse : String → LogFilter
  insists : Bool

def Logger.byLevel : Logger where
  parse? := LogFilter.ofName?
  parse name := (LogFilter.ofName? name).getD ⟨none, fun _ => true⟩
  insists := true

end PixelCode
