import LS8.Machine.Step

/-! A cycle told in two parts. First the instruction at the program counter is carried out on the machine
alone, which may fail. Then what it has to show goes to the console, which may refuse part of it. A step
comes to the same, so one that fails leaves the machine as it was. -/

namespace LS8

inductive Effect where
  | skipped (address : Nat) (byte : UInt8)
  | halted (address : Nat)
  | printed (value : UInt8)
  | computed (operation : Operation)
deriving DecidableEq, Repr

def Effect.output : Effect → List UInt8
  | .printed value => outputLine value
  | .skipped _ _ | .halted _ | .computed _ => []

def Effect.event? : Effect → Option Event
  | .skipped address byte => some (.skipped address byte)
  | .halted address => some (.halted address)
  | .printed _ | .computed _ => none

def Effect.step : Effect → Step
  | .skipped address byte => .skipped address byte
  | .halted _ => .halted
  | .printed _ => .executed .print
  | .computed operation => .executed operation

/-- The machine past an instruction that left these registers. -/
def Machine.past (m : Machine) (i : Instruction) (registers : Registers) : Machine :=
  { m with registers, pc := m.pc + i.size }

/-- What an instruction does to the machine, and its effect. -/
def Machine.execute (m : Machine) (i : Instruction) : Except Fault (Effect × Machine) :=
  match i with
  | .unknown byte => .ok (.skipped m.pc byte, m.past i m.registers)
  | .halt => .ok (.halted m.pc, { m with status := .halted })
  | .print register => do
    let value ← m.registers.read register
    return (.printed value, m.past i m.registers)
  | .loadImmediate register value => do
    let registers ← afterSuccess (m.registers.write register value)
    return (.computed .loadImmediate, m.past i registers)
  | .arithmetic operation target source => do
    let registers ← afterSuccess (m.registers.apply operation target source)
    return (.computed operation, m.past i registers)

def Machine.cycle (m : Machine) : Except Fault (Effect × Machine) := do
  m.execute (← m.memory.fetch m.pc)

def Console.display (c : Console) (effect : Effect) : Console :=
  let c := c.offer effect.output
  match effect.event? with
  | some event => c.note event
  | none => c

/-- What a cycle comes to on this console. -/
def Machine.shown (m : Machine) (c : Console) :
    Except Fault (Effect × Machine) → Except Fault Step × Workplace
  | .error fault => (.error fault, ⟨m, c⟩)
  | .ok (effect, next) =>
    if c.sink.Fits effect.output then (.ok effect.step, ⟨next, c.display effect⟩)
    else (.error .outputClosed, ⟨m, c.display effect⟩)

theorem Console.display_of_silent {effect : Effect} (silent : effect.output = []) (c : Console) :
    c.display effect =
      match effect.event? with
      | some event => c.note event
      | none => c := by
  simp only [display, silent, offer, Sink.offer_nil]

section Step

variable {m : Machine} {c : Console}

theorem Machine.shown_of_silent {effect : Effect} (silent : effect.output = []) (next : Machine) :
    m.shown c (.ok (effect, next)) = (.ok effect.step, ⟨next, c.display effect⟩) :=
  if_pos (silent ▸ c.sink.fits_nil)

/-- The console is not reached when the call on the registers fails. -/
theorem Machine.inPlace_onRegisters (call : Registers → Except Fault Unit × Registers)
    (keeps : Keeps m.registers (call m.registers)) (i : Instruction) (operation : Operation) :
    inPlace ⟨m, c⟩ (do
      Workplace.onRegisters call
      Workplace.advance i.size
      return Step.executed operation) =
    m.shown c (do
      let registers ← afterSuccess (call m.registers)
      return (.computed operation, m.past i registers)) := by
  cases h : afterSuccess (call m.registers) with
  | error fault =>
    have failed := keeps.eq_of_error h
    simp only [Workplace.onRegisters, inPlace_bind, inPlace_changing, failed]
    rfl
  | ok registers =>
    have done := afterSuccess_eq_ok_iff.mp h
    refine Eq.trans ?_ (shown_of_silent rfl _).symm
    rw [Console.display_of_silent rfl]
    simp only [Workplace.onRegisters, inPlace_bind, inPlace_changing, done]
    rfl

theorem Machine.inPlace_carryOut (i : Instruction) :
    inPlace ⟨m, c⟩ i.carryOut = m.shown c (m.execute i) := by
  cases i with
  | unknown byte =>
    rw [execute, shown_of_silent rfl, Console.display_of_silent rfl]
    rfl
  | halt =>
    rw [execute, shown_of_silent rfl, Console.display_of_silent rfl]
    rfl
  | print register =>
    simp only [Instruction.carryOut, inPlace_bind, inPlace_get, inPlace_reading, execute]
    cases m.registers.read register with
    | error fault => rfl
    | ok value =>
      simp only [Workplace.offer, inPlace_changing]
      show _ = if c.sink.Fits (outputLine value) then _ else _
      by_cases fits : c.sink.Fits (outputLine value)
      · rw [if_pos fits, if_pos fits]
        rfl
      · rw [if_neg fits, if_neg fits]
        rfl
  | loadImmediate register value =>
    exact inPlace_onRegisters (·.write register value) (m.registers.keeps_write register value)
      (.loadImmediate register value) .loadImmediate
  | arithmetic operation target source =>
    exact inPlace_onRegisters (·.apply operation target source)
      (m.registers.keeps_apply operation target source) (.arithmetic operation target source) operation

theorem Machine.step_of_halted (halted : m.status = .halted) (c : Console) :
    m.step c = ⟨.ok .halted, m, c⟩ := by
  simp only [step, inPlace_bind, inPlace_get, halted, inPlace_pure]
  rfl

theorem Machine.step_of_running (running : m.status = .running) (c : Console) :
    m.step c = .ofWork (m.shown (c.note (.cycle m.snapshot)) m.cycle) := by
  simp only [step, inPlace_bind, inPlace_get, running, Workplace.note, inPlace_modify,
    inPlace_reading, cycle]
  cases m.memory.fetch m.pc with
  | error fault => rfl
  | ok i =>
    simp only [inPlace_carryOut]
    rfl

end Step

end LS8
