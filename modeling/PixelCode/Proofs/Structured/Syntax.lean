import PixelCode.Exception
import PixelCode.Opcode

/-! Programs with lexical scopes and functions, and the bytes they are laid out in. -/
namespace PixelCode.Structured

structure Types where
  codes : List UInt8
  length_le : codes.length ≤ 255

def Types.accepts (types : Types) (e : Exception) : Bool :=
  types.codes.isEmpty || types.codes.contains e.code

def Types.bytes (types : Types) : List UInt8 :=
  Opcode.clause.byte :: UInt8.ofNat types.codes.length :: types.codes

inductive Atom where
  | unknown (b : UInt8) (h : Opcode.ofByte? b = none)
  | push (n : UInt8) | pop | dup
  | add | sub | mul | div | mod | exp
  | halt
  | store (id : UInt8) | load (id : UInt8)
  | printNum | printChar | printlnNum | printlnChar

def Atom.bytes : Atom → List UInt8
  | unknown b _ => [b]
  | push n => [Opcode.push.byte, n]
  | pop => [Opcode.pop.byte]
  | dup => [Opcode.dup.byte]
  | add => [Opcode.add.byte]
  | sub => [Opcode.sub.byte]
  | mul => [Opcode.mul.byte]
  | div => [Opcode.div.byte]
  | mod => [Opcode.mod.byte]
  | exp => [Opcode.exp.byte]
  | halt => [Opcode.halt.byte]
  | store id => [Opcode.store.byte, id]
  | load id => [Opcode.load.byte, id]
  | printNum => [Opcode.printNum.byte]
  | printChar => [Opcode.printChar.byte]
  | printlnNum => [Opcode.printlnNum.byte]
  | printlnChar => [Opcode.printlnChar.byte]

mutual

/-- A statement. The index tells whether functions may be defined in it. -/
inductive Stmt : Bool → Type where
  | atom {defs : Bool} (a : Atom) : Stmt defs
  | call {defs : Bool} (id : UInt8) : Stmt defs
  /-- A block with at least one clause: the first, and the others. -/
  | attempt {defs : Bool} (body : Block defs) (types : Types) (handler : Block defs)
      (others : Clauses defs) : Stmt defs
  | define (id : UInt8) (body : Block false) : Stmt true

inductive Block : Bool → Type where
  | nil {defs : Bool} : Block defs
  | cons {defs : Bool} (first : Stmt defs) (rest : Block defs) : Block defs

inductive Clauses : Bool → Type where
  | nil {defs : Bool} : Clauses defs
  | cons {defs : Bool} (types : Types) (handler : Block defs) (rest : Clauses defs) : Clauses defs

end

mutual

/-- The bytes of a statement: a scope ends with its last clause, a function with a return. -/
def Stmt.flatten {defs : Bool} : Stmt defs → List UInt8
  | .atom a => a.bytes
  | .call id => [Opcode.call.byte, id]
  | .attempt body types handler others =>
    Opcode.openTry.byte :: (body.flatten ++ (types.bytes ++ handler.flatten ++ others.flatten) ++
      [Opcode.endTry.byte])
  | .define id body => Opcode.func.byte :: id :: (body.flatten ++ [Opcode.ret.byte])

def Block.flatten {defs : Bool} : Block defs → List UInt8
  | .nil => []
  | .cons first rest => first.flatten ++ rest.flatten

def Clauses.flatten {defs : Bool} : Clauses defs → List UInt8
  | .nil => []
  | .cons types handler rest => types.bytes ++ handler.flatten ++ rest.flatten

end

def Clauses.select {defs : Bool} (e : Exception) : Clauses defs → Option (Block defs)
  | .nil => none
  | .cons types handler rest => if types.accepts e then some handler else rest.select e

end PixelCode.Structured
