import PixelCode.Text.Digits

/-! The instruction set: one byte for each operation. -/
namespace PixelCode

inductive Opcode where
  | push | pop | dup
  | add | sub | mul | div | mod | exp
  | halt
  | store | load
  | call | ret | func
  | printNum | printChar | printlnNum | printlnChar
  | openTry | clause | endTry
  deriving DecidableEq, Repr

namespace Opcode

def all : List Opcode :=
  [push, pop, dup, add, sub, mul, div, mod, exp, halt, store, load, call, ret, func,
   printNum, printChar, printlnNum, printlnChar, openTry, clause, endTry]

def byte : Opcode → UInt8
  | push => 0x01
  | pop => 0x02
  | dup => 0x03
  | add => 0x10
  | sub => 0x11
  | mul => 0x12
  | div => 0x13
  | mod => 0x14
  | exp => 0x15
  | halt => 0x32
  | store => 0x40
  | load => 0x41
  | call => 0x50
  | ret => 0x51
  | func => 0x52
  | printNum => 0x60
  | printChar => 0x61
  | printlnNum => 0x62
  | printlnChar => 0x63
  | openTry => 0x70
  | clause => 0x71
  | endTry => 0x72

/-- The operation that a byte stands for. Every other byte is unknown. -/
def ofByte? : UInt8 → Option Opcode
  | 0x01 => some push
  | 0x02 => some pop
  | 0x03 => some dup
  | 0x10 => some add
  | 0x11 => some sub
  | 0x12 => some mul
  | 0x13 => some div
  | 0x14 => some mod
  | 0x15 => some exp
  | 0x32 => some halt
  | 0x40 => some store
  | 0x41 => some load
  | 0x50 => some call
  | 0x51 => some ret
  | 0x52 => some func
  | 0x60 => some printNum
  | 0x61 => some printChar
  | 0x62 => some printlnNum
  | 0x63 => some printlnChar
  | 0x70 => some openTry
  | 0x71 => some clause
  | 0x72 => some endTry
  | _ => none

def mnemonic : Opcode → String
  | push => "PUSH"
  | pop => "POP"
  | dup => "DUP"
  | add => "ADD"
  | sub => "SUB"
  | mul => "MUL"
  | div => "DIV"
  | mod => "MOD"
  | exp => "EXP"
  | halt => "HALT"
  | store => "STORE"
  | load => "LOAD"
  | call => "CALL"
  | ret => "RETURN"
  | func => "FUNC"
  | printNum => "PRINT_NUM"
  | printChar => "PRINT_CHAR"
  | printlnNum => "PRINTLN_NUM"
  | printlnChar => "PRINTLN_CHAR"
  | openTry => "TRY"
  | clause => "CATCH"
  | endTry => "END_TRY"

/-- The operation with the given name; letter case matters. -/
def ofMnemonic? (name : String) : Option Opcode :=
  all.find? (·.mnemonic = name)

/-- How many bytes follow the operation whatever they hold. The byte after `clause` is a count, and
as many type bytes follow it. -/
def operands : Opcode → Nat
  | push | store | load | call | func | clause => 1
  | _ => 0

def nameOf (b : UInt8) : String :=
  match ofByte? b with
  | some op => op.mnemonic
  | none => "UNKNOWN_OPCODE"

def unknownMessage (b : UInt8) : String :=
  "unknown opcode: 0x" ++ String.ofList (Text.hexByte b)

theorem ofByte?_byte (op : Opcode) : ofByte? op.byte = some op := by
  cases op <;> rfl

theorem ofMnemonic?_mnemonic (op : Opcode) : ofMnemonic? op.mnemonic = some op := by
  cases op <;> rfl

end Opcode
end PixelCode
