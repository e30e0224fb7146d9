import PixelCode.Assembly.Token
import PixelCode.Exception
import PixelCode.Program

/-! One line of assembly: an instruction or a raw byte. -/
namespace PixelCode.Assembly

inductive Cause where
  | unknownOpcode (token : String)
  | unknownException (token : String)
  /-- An operation or the byte directive lacks its one argument. -/
  | missingArgument (name : String)
  | invalidNumber (token : String)
  | unexpectedToken (token : String)
  | tooManyTypes (count : Nat)
  deriving DecidableEq, Repr

def Cause.message : Cause → String
  | unknownOpcode token => s!"unknown opcode '{token}'"
  | unknownException token => s!"unknown exception type '{token}'"
  | missingArgument name => s!"{name} expects 1 argument(s)"
  | invalidNumber token => s!"invalid number '{token}'"
  | unexpectedToken token => s!"unexpected token '{token}'"
  | tooManyTypes count => s!"CATCH lists {count} types (at most 255)"

inductive Statement where
  /-- An operation with its operand bytes; those of a clause are its types. -/
  | instruction (op : Opcode) (operands : List UInt8)
  | raw (b : UInt8)
  deriving DecidableEq, Repr

def byteDirective : String := "BYTE"

namespace Statement

def encode : Statement → List UInt8
  | instruction .clause types => Opcode.clause.byte :: UInt8.ofNat types.length :: types
  | instruction op operands => op.byte :: operands
  | raw b => [b]

def text : Statement → String
  | instruction op operands =>
    " ".intercalate (op.mnemonic :: operands.map fun b => toString b.toNat)
  | raw b => byteDirective ++ " 0x" ++ String.ofList (Text.hexByte b)

def byteOf (n : Nat) : Except Cause UInt8 :=
  if n < 256 then .ok (UInt8.ofNat n) else .error (.invalidNumber (toString n))

def endOfLine : List Token → Except Cause Unit
  | [] => .ok ()
  | token :: _ => .error (.unexpectedToken token.text)

def soleByte (name : String) : List Token → Except Cause UInt8
  | [] => .error (.missingArgument name)
  | .name s :: _ => .error (.unexpectedToken s)
  | .number n :: rest => do
    let b ← byteOf n
    endOfLine rest
    return b

def typeByte : Token → Except Cause UInt8
  | .number n => byteOf n
  | .name s =>
    match Exception.ofName? s with
    | some e => .ok e.code
    | none => .error (.unknownException s)

def typeBytes : List Token → Except Cause (List UInt8)
  | [] => .ok []
  | token :: tokens => do
    let b ← typeByte token
    let bs ← typeBytes tokens
    return b :: bs

def ofArguments (op : Opcode) (arguments : List Token) : Except Cause Statement :=
  match op with
  | .clause =>
    if 255 < arguments.length then .error (.tooManyTypes arguments.length)
    else (typeBytes arguments).map (instruction .clause)
  | op =>
    if op.operands = 0 then (endOfLine arguments).map fun _ => instruction op []
    else (soleByte op.mnemonic arguments).map fun b => instruction op [b]

def ofTokens : List Token → Except Cause (Option Statement)
  | [] => .ok none
  | .number n :: _ => .error (.unexpectedToken (toString n))
  | .name s :: arguments =>
    if s = byteDirective then (soleByte byteDirective arguments).map fun b => some (raw b)
    else match Opcode.ofMnemonic? s with
      | none => .error (.unknownOpcode s)
      | some op => (ofArguments op arguments).map some

end Statement
end PixelCode.Assembly
