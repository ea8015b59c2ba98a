import LS8.Console.Basic

/-! The machine: registers, program counter, memory and status. An operation on it yields a turn,
which holds the machine and the console as they are afterwards, also when the operation fails. -/

namespace LS8

inductive Status where
  | running
  | halted
deriving DecidableEq, Repr

@[ext] structure Machine where
  registers : Registers
  /-- The address of the next instruction. -/
  pc : Nat
  memory : Memory
  status : Status
deriving DecidableEq

/-- A machine about to run from address zero with every register zero. -/
def Machine.ofMemory (memory : Memory) : Machine := ⟨.zero, 0, memory, .running⟩

def Machine.blank : Machine := .ofMemory .blank

def Machine.ofSize (size : Nat) : Except Fault Machine := do
  return .ofMemory (← Memory.ofSize size)

def Machine.snapshot (m : Machine) : Snapshot :=
  ⟨m.pc, m.memory.window m.pc, m.registers⟩

structure Turn (α : Type) where
  result : Except Fault α
  machine : Machine
  console : Console

/-- Changes a memory cell from outside. Nothing else of the machine is affected. -/
def Machine.poke (m : Machine) (address : Nat) (value : UInt8) : Except Fault Unit × Machine :=
  let (result, memory) := m.memory.write address value
  (result, { m with memory })

/-- Places a program image in memory. Registers, program counter and status stay as they are. -/
def Machine.load (m : Machine) (image : Image) (console : Console) : Turn Unit :=
  match m.memory.load image with
  | (.ok (), memory) => ⟨.ok (), { m with memory }, console.note (.loaded image.length)⟩
  | (.error fault, memory) => ⟨.error fault, { m with memory }, console⟩

end LS8
