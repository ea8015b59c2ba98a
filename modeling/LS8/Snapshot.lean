import LS8.Instruction
import LS8.Registers

/-! What a machine looks like just before a cycle: its program counter, the three cells from there
on, and the registers. A cell outside memory is written as two dashes. -/

namespace LS8

structure Snapshot where
  pc : Nat
  window : List (Option UInt8)
  registers : Registers
deriving DecidableEq

/-- The number of cells shown, as many as the longest instruction takes up. -/
def windowWidth : Nat := 3

def Memory.window (m : Memory) (address : Nat) : List (Option UInt8) :=
  (List.range windowWidth).map fun offset => m.peek? (address + offset)

def byteText (byte : UInt8) : String := upperHex 2 byte.toNat

def cellText : Option UInt8 → String
  | some byte => byteText byte
  | none => "--"

def Snapshot.line (s : Snapshot) : String :=
  "TRACE: " ++ upperHex 2 s.pc ++ " | " ++ " ".intercalate (s.window.map cellText) ++ " | " ++
    " ".intercalate (s.registers.toList.map byteText)

end LS8
