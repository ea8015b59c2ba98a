import LS8.Machine.Cycle

/-! Running a machine until it halts or fails. Each cycle that succeeds either halts the machine or
moves the program counter up within memory, so a run ends. -/

namespace LS8

/-- What a run that ended well has done: how many cycles it took, and which bytes it stepped over,
in order, each with its address. -/
structure Summary where
  cycles : Nat
  skipped : Array (Nat × UInt8)
deriving DecidableEq

def Summary.empty : Summary := ⟨0, #[]⟩

def Summary.count (s : Summary) : Step → Summary
  | .skipped address byte => ⟨s.cycles + 1, s.skipped.push (address, byte)⟩
  | .executed _ | .halted => { s with cycles := s.cycles + 1 }

/-- A bound on the number of cycles that can still succeed. -/
def Machine.cyclesLeft (m : Machine) : Nat :=
  match m.status with
  | .running => m.memory.size - m.pc
  | .halted => 0

/-- An instruction that succeeds halts the machine or moves the program counter past itself. -/
theorem Machine.halted_or_past_of_execute {m next : Machine} {i : Instruction} {effect : Effect}
    (h : m.execute i = .ok (effect, next)) :
    next = { m with status := .halted } ∨ ∃ registers, next = m.past i registers := by
  cases i with
  | unknown byte =>
    cases h
    exact .inr ⟨_, rfl⟩
  | halt =>
    cases h
    exact .inl rfl
  | print register | loadImmediate register value | arithmetic operation target source =>
    obtain ⟨_, _, h⟩ := eq_ok_of_bind_eq_ok h
    cases h
    exact .inr ⟨_, rfl⟩

theorem Machine.cyclesLeft_lt_of_cycle {m next : Machine} {effect : Effect}
    (running : m.status = .running) (h : m.cycle = .ok (effect, next)) :
    next.cyclesLeft < m.cyclesLeft := by
  obtain ⟨i, hf, he⟩ := eq_ok_of_bind_eq_ok h
  have inside := Memory.lt_size_of_fetch hf
  have longer := i.size_pos
  rcases halted_or_past_of_execute he with rfl | ⟨registers, rfl⟩
  · simp only [cyclesLeft, running]
    omega
  · simp only [cyclesLeft, past, running]
    omega

theorem Machine.cyclesLeft_lt_of_step {m : Machine} {console : Console} {step : Step}
    (running : m.status = .running) (h : (m.step console).result = .ok step) :
    (m.step console).machine.cyclesLeft < m.cyclesLeft := by
  have hs := step_of_running running console
  cases hc : m.cycle with
  | error fault =>
    rw [hc] at hs
    rw [hs] at h
    cases h
  | ok shown =>
    obtain ⟨effect, next⟩ := shown
    rw [hc, Machine.shown] at hs
    split at hs
    · rw [hs]
      exact cyclesLeft_lt_of_cycle running hc
    · rw [hs] at h
      cases h

/-- Runs cycles until the machine halts or fails, and adds them to a summary. -/
def Machine.runFrom (m : Machine) (console : Console) (summary : Summary) : Turn Summary :=
  match running : m.status with
  | .halted => ⟨.ok summary, m, console⟩
  | .running =>
    match h : m.step console with
    | ⟨.error fault, machine, console⟩ => ⟨.error fault, machine, console⟩
    | ⟨.ok step, machine, shown⟩ =>
      have fewer : machine.cyclesLeft < m.cyclesLeft := by
        simpa only [h] using Machine.cyclesLeft_lt_of_step running (congrArg Turn.result h)
      machine.runFrom shown (summary.count step)
termination_by m.cyclesLeft

/-- Runs the machine. A fault discards the summary, but not what was shown until then. -/
def Machine.run (m : Machine) (console : Console) : Turn Summary := m.runFrom console .empty

end LS8
