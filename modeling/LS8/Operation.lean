/-! The operations of the machine and the bytes that stand for them. Five operations have a
mnemonic; four of them have an opcode, so every other byte in memory is no instruction. -/

namespace LS8

inductive Operation where
  | add
  | halt
  | loadImmediate
  | multiply
  | print
deriving DecidableEq, Repr

def Operation.all : List Operation := [.add, .halt, .loadImmediate, .multiply, .print]

def Operation.mnemonic : Operation → String
  | .add => "ADD"
  | .halt => "HLT"
  | .loadImmediate => "LDI"
  | .multiply => "MUL"
  | .print => "PRN"

def Operation.ofMnemonic? (text : String) : Option Operation :=
  Operation.all.find? fun operation => operation.mnemonic = text

/-- The number of bytes that follow the opcode and belong to the same instruction. -/
def Operation.operandCount : Operation → Nat
  | .add => 2
  | .halt => 0
  | .loadImmediate => 2
  | .multiply => 2
  | .print => 1

/-- The opcodes in ascending order. Addition has none: the arithmetic unit adds, but no program
can ask for it. -/
def opcodes : List (UInt8 × Operation) :=
  [(0x01, .halt), (0x47, .print), (0x82, .loadImmediate), (0xA2, .multiply)]

def Operation.ofByte? (byte : UInt8) : Option Operation := opcodes.lookup byte

end LS8
