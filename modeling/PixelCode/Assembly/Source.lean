import PixelCode.Assembly.Statement
import PixelCode.Text.Blank
import PixelCode.Text.Lines

/-! From assembly text to programs and back. -/
namespace PixelCode.Assembly

/-- The part of a line before its comment. A semicolon starts a comment unless an odd number of
apostrophes stands before it. -/
def codeFrom (quoted : Bool) : List Char → List Char
  | [] => []
  | c :: cs =>
    if c = '\'' then c :: codeFrom (!quoted) cs
    else if c = ';' && !quoted then []
    else c :: codeFrom quoted cs

def code (line : List Char) : List Char := codeFrom false line

def tokens : List (List Char) → Except Cause (List Token)
  | [] => .ok []
  | word :: words =>
    match Token.ofWord? word with
    | none => .error (.invalidNumber (String.ofList word))
    | some token => (tokens words).map (token :: ·)

/-- The statement of a line. All its words are read before it is judged as a whole. -/
def statement (line : List Char) : Except Cause (Option Statement) := do
  Statement.ofTokens (← tokens (Text.words (code line)))

def lineBytes (line : List Char) : Except Cause (List UInt8) :=
  (statement line).map fun s => (s.map Statement.encode).getD []

structure Error where
  line : Nat
  cause : Cause
  deriving DecidableEq, Repr

def Error.message (e : Error) : String := s!"line {e.line}: {e.cause.message}"

def linesBytes : Nat → List (List Char) → Except Error (List UInt8)
  | _, [] => .ok []
  | number, line :: lines =>
    match lineBytes line with
    | .error cause => .error ⟨number, cause⟩
    | .ok bytes => (linesBytes (number + 1) lines).map (bytes ++ ·)

def assemble (text : String) : Except Error Program :=
  (linesBytes 1 (Text.lines text.toList)).map Program.ofList

def statementAt (p : Program) (pc : Nat) (byte : UInt8) : Statement :=
  let operands := (p.bytes.extract (pc + 1) (p.next pc)).toList
  match Opcode.ofByte? byte with
  | some .clause => .instruction .clause operands.tail
  | some op => .instruction op operands
  | none => .raw byte

/-- The statements of a program from a position on. An instruction whose operands are cut off by the
end of the program becomes raw bytes. -/
def statementsFrom (p : Program) (pc : Nat) : List Statement :=
  match p.byte? pc with
  | none => []
  | some byte =>
    if p.next pc ≤ p.size then
      have := p.lt_next pc
      statementAt p pc byte :: statementsFrom p (p.next pc)
    else (p.bytes.extract pc p.size).toList.map .raw
termination_by p.size - pc

def disassemble (p : Program) : String :=
  String.join ((statementsFrom p 0).map fun s => s.text ++ "\n")

end PixelCode.Assembly
