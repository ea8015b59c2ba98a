import LS8.Memory

/-! Instructions as they stand in memory. The opcode decides how many operand bytes follow, and the
operands are fetched upwards, so a fetch that leaves memory reports the lowest missing address. -/

namespace LS8

inductive Instruction where
  | unknown (byte : UInt8)
  | halt
  | print (register : UInt8)
  | loadImmediate (register value : UInt8)
  | arithmetic (operation : Operation) (target source : UInt8)
deriving DecidableEq, Repr

def Instruction.size : Instruction → Nat
  | .unknown _ => 1
  | .halt => 1 + Operation.halt.operandCount
  | .print _ => 1 + Operation.print.operandCount
  | .loadImmediate _ _ => 1 + Operation.loadImmediate.operandCount
  | .arithmetic operation _ _ => 1 + operation.operandCount

theorem Instruction.size_pos (i : Instruction) : 0 < i.size := by
  cases i <;> simp only [size] <;> omega

def Memory.fetch (m : Memory) (address : Nat) : Except Fault Instruction := do
  let byte ← m.read address
  match Operation.ofByte? byte with
  | none => return .unknown byte
  | some .halt => return .halt
  | some .print => return .print (← m.read (address + 1))
  | some .loadImmediate => return .loadImmediate (← m.read (address + 1)) (← m.read (address + 2))
  | some .add => return .arithmetic .add (← m.read (address + 1)) (← m.read (address + 2))
  | some .multiply => return .arithmetic .multiply (← m.read (address + 1)) (← m.read (address + 2))

theorem Memory.lt_size_of_fetch {m : Memory} {address : Nat} {i : Instruction}
    (h : m.fetch address = .ok i) : address < m.size := by
  obtain ⟨byte, hb, -⟩ := eq_ok_of_bind_eq_ok h
  exact lt_size_of_read hb

end LS8
