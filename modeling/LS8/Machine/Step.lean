import LS8.Arithmetic
import LS8.Machine.Basic

/-! One step of the machine. It changes machine and console as it goes, in the order in which things
happen: the cycle is noted, the instruction is fetched and carried out, and only then the program counter
moves. A step that fails stops where it is. -/

namespace LS8

/-- What a step reports to its caller. A machine that has halted reports so again. -/
inductive Step where
  | executed (operation : Operation)
  | skipped (address : Nat) (byte : UInt8)
  | halted
deriving DecidableEq, Repr

/-- A machine at work, and the console on which it shows things. -/
structure Workplace where
  machine : Machine
  console : Console

namespace Workplace

def note (event : Event) : InPlace Workplace Unit :=
  modify fun w => { w with console := w.console.note event }

/-- Offers bytes to the sink, which takes as many of them as it has room for. -/
def offer (bytes : List UInt8) : InPlace Workplace Unit :=
  changing fun w =>
    (if w.console.sink.Fits bytes then .ok () else .error .outputClosed,
      { w with console := w.console.offer bytes })

def onRegisters (call : Registers → Except Fault Unit × Registers) : InPlace Workplace Unit :=
  changing fun w =>
    let (result, registers) := call w.machine.registers
    (result, { w with machine.registers := registers })

def advance (size : Nat) : InPlace Workplace Unit :=
  modify fun w => { w with machine.pc := w.machine.pc + size }

def stop : InPlace Workplace Unit := modify fun w => { w with machine.status := .halted }

end Workplace

/-- A value as a line of output: its decimal numeral and a line feed. -/
def outputLine (value : UInt8) : List UInt8 :=
  (Nat.toDigits 10 value.toNat).map Char.toUInt8 ++ [0x0A]

open Workplace in
/-- Carries out an instruction that stands at the program counter. The counter moves past it, except
that a machine which halts stays on it. -/
def Instruction.carryOut (i : Instruction) : InPlace Workplace Step := do
  let address := (← get).machine.pc
  match i with
  | .unknown byte =>
    note (.skipped address byte)
    advance i.size
    return .skipped address byte
  | .halt =>
    note (.halted address)
    stop
    return .halted
  | .print register =>
    let value ← reading (·.machine.registers.read register)
    offer (outputLine value)
    advance i.size
    return .executed .print
  | .loadImmediate register value =>
    onRegisters (·.write register value)
    advance i.size
    return .executed .loadImmediate
  | .arithmetic operation target source =>
    onRegisters (·.apply operation target source)
    advance i.size
    return .executed operation

def Turn.ofWork {α : Type} (work : Except Fault α × Workplace) : Turn α :=
  ⟨work.1, work.2.machine, work.2.console⟩

def Machine.step (m : Machine) (console : Console) : Turn Step :=
  .ofWork <| inPlace ⟨m, console⟩ do
    match (← get).machine.status with
    | .halted => return .halted
    | .running =>
      Workplace.note (.cycle (← get).machine.snapshot)
      let i ← reading fun w => w.machine.memory.fetch w.machine.pc
      i.carryOut

end LS8
