import LS8.Machine.Run

/-! Executions: cycles that succeed one after the other, with no regard to what is done with their
output. They all are the beginning of one that cannot be continued. -/

namespace LS8

theorem Memory.add_size_le_of_fetch {m : Memory} {address : Nat} {i : Instruction}
    (h : m.fetch address = .ok i) : address + i.size ≤ m.size := by
  obtain ⟨byte, hb, h⟩ := eq_ok_of_bind_eq_ok h
  have hlt := lt_size_of_read hb
  split at h
  · cases h
    exact hlt
  · cases h
    exact hlt
  · obtain ⟨register, hr, h⟩ := eq_ok_of_bind_eq_ok h
    cases h
    exact lt_size_of_read hr
  -- The other operations have two operands, and the second of them lies in memory.
  all_goals
    obtain ⟨first, _, h⟩ := eq_ok_of_bind_eq_ok h
    obtain ⟨second, hs, h⟩ := eq_ok_of_bind_eq_ok h
    cases h
    exact lt_size_of_read hs

/-- What an instruction does to a machine when it succeeds. -/
inductive Machine.CarriedOut (m : Machine) : Instruction → Effect → Machine → Prop
  | unknown (byte : UInt8) :
      CarriedOut m (.unknown byte) (.skipped m.pc byte) (m.past (.unknown byte) m.registers)
  | halt : CarriedOut m .halt (.halted m.pc) { m with status := .halted }
  | print {register value : UInt8} (read : m.registers.read register = .ok value) :
      CarriedOut m (.print register) (.printed value) (m.past (.print register) m.registers)
  | loadImmediate {register value : UInt8} {registers : Registers}
      (write : m.registers.write register value = (.ok (), registers)) :
      CarriedOut m (.loadImmediate register value) (.computed .loadImmediate)
        (m.past (.loadImmediate register value) registers)
  | arithmetic {operation : Operation} {target source : UInt8} {registers : Registers}
      (apply : m.registers.apply operation target source = (.ok (), registers)) :
      CarriedOut m (.arithmetic operation target source) (.computed operation)
        (m.past (.arithmetic operation target source) registers)

theorem Machine.carriedOut_of_execute {m next : Machine} {i : Instruction} {effect : Effect}
    (h : m.execute i = .ok (effect, next)) : m.CarriedOut i effect next := by
  cases i with
  | unknown byte =>
    cases h
    exact .unknown byte
  | halt =>
    cases h
    exact .halt
  | print register =>
    obtain ⟨value, hv, h⟩ := eq_ok_of_bind_eq_ok h
    cases h
    exact .print hv
  | loadImmediate register value =>
    obtain ⟨registers, hr, h⟩ := eq_ok_of_bind_eq_ok h
    cases h
    exact .loadImmediate (afterSuccess_eq_ok_iff.mp hr)
  | arithmetic operation target source =>
    obtain ⟨registers, hr, h⟩ := eq_ok_of_bind_eq_ok h
    cases h
    exact .arithmetic (afterSuccess_eq_ok_iff.mp hr)

theorem Machine.carriedOut_of_cycle {m next : Machine} {effect : Effect}
    (h : m.cycle = .ok (effect, next)) :
    ∃ i, m.memory.fetch m.pc = .ok i ∧ m.CarriedOut i effect next := by
  obtain ⟨i, hf, he⟩ := eq_ok_of_bind_eq_ok h
  exact ⟨i, hf, carriedOut_of_execute he⟩

theorem Machine.memory_eq_of_cycle {m next : Machine} {effect : Effect}
    (h : m.cycle = .ok (effect, next)) : next.memory = m.memory := by
  obtain ⟨i, -, hc⟩ := carriedOut_of_cycle h
  cases hc <;> rfl

theorem Machine.pc_le_size_of_cycle {m next : Machine} {effect : Effect}
    (h : m.cycle = .ok (effect, next)) : next.pc ≤ next.memory.size := by
  obtain ⟨i, hf, hc⟩ := carriedOut_of_cycle h
  have hs := Memory.add_size_le_of_fetch hf
  cases hc with
  | halt => exact Nat.le_trans (Nat.le_add_right _ _) hs
  | unknown | print | loadImmediate | arithmetic => exact hs

/-- A cycle moves the program counter up, except that a halt leaves it in place. -/
theorem Machine.pc_lt_of_cycle {m next : Machine} {effect : Effect}
    (h : m.cycle = .ok (effect, next)) (going : effect.step ≠ .halted) : m.pc < next.pc := by
  obtain ⟨i, -, hc⟩ := carriedOut_of_cycle h
  have hp := i.size_pos
  cases hc with
  | halt => exact (going rfl).elim
  | unknown | print | loadImmediate | arithmetic => exact Nat.lt_add_of_pos_right hp

theorem Machine.print_of_cycle {m next : Machine} {value : UInt8}
    (h : m.cycle = .ok (.printed value, next)) :
    ∃ register, m.memory.fetch m.pc = .ok (.print register) ∧
      m.registers.read register = .ok value := by
  obtain ⟨i, hf, hc⟩ := carriedOut_of_cycle h
  cases hc with
  | print read => exact ⟨_, hf, read⟩

/-- The cycles of an execution, each with the machine before it and what it did. -/
abbrev History := List (Machine × Effect)

/-- The cycles of the history succeed one after the other, and lead from one machine to another. -/
inductive Execution : Machine → History → Machine → Prop
  | refl (m : Machine) : Execution m [] m
  | cycle {m next last : Machine} {effect : Effect} {history : History}
      (running : m.status = .running) (ok : m.cycle = .ok (effect, next))
      (rest : Execution next history last) : Execution m ((m, effect) :: history) last

/-- No cycle follows: the machine has halted, or the next cycle would fail. -/
inductive Machine.Stops (m : Machine) : Option Fault → Prop
  | halted (halted : m.status = .halted) : m.Stops none
  | failing {fault : Fault} (running : m.status = .running) (error : m.cycle = .error fault) :
      m.Stops (some fault)

theorem Execution.append {m n last : Machine} {before after : History}
    (h : Execution m before n) (rest : Execution n after last) :
    Execution m (before ++ after) last := by
  induction h with
  | refl => exact rest
  | cycle running ok _ ih => exact .cycle running ok (ih rest)

theorem Execution.split {m last : Machine} {before after : History}
    (h : Execution m (before ++ after) last) :
    ∃ n, Execution m before n ∧ Execution n after last := by
  induction before generalizing m with
  | nil => exact ⟨m, .refl m, h⟩
  | cons c before ih =>
    cases h with
    | cycle running ok rest =>
      obtain ⟨n, hn, ha⟩ := ih rest
      exact ⟨n, .cycle running ok hn, ha⟩

theorem Execution.at_cycle {m n last : Machine} {effect : Effect} {before after : History}
    (h : Execution m (before ++ (n, effect) :: after) last) :
    Execution m before n ∧ n.status = .running ∧
      ∃ next, n.cycle = .ok (effect, next) ∧ Execution next after last := by
  obtain ⟨k, hb, ha⟩ := h.split
  cases ha with
  | cycle running ok rest => exact ⟨hb, running, _, ok, rest⟩

theorem Execution.length_add_cyclesLeft_le {m last : Machine} {history : History}
    (h : Execution m history last) : history.length + last.cyclesLeft ≤ m.cyclesLeft := by
  induction h with
  | refl m => simp
  | cycle running ok _ ih =>
    have hlt := Machine.cyclesLeft_lt_of_cycle running ok
    simp only [List.length_cons]
    omega

theorem Execution.memory_eq {m last : Machine} {history : History}
    (h : Execution m history last) : last.memory = m.memory := by
  induction h with
  | refl => rfl
  | cycle _ ok _ ih => rw [ih, Machine.memory_eq_of_cycle ok]

theorem Execution.pc_le_size {m last : Machine} {history : History}
    (h : Execution m history last) (inside : m.pc ≤ m.memory.size) :
    last.pc ≤ last.memory.size := by
  induction h with
  | refl => exact inside
  | cycle _ ok _ ih => exact ih (Machine.pc_le_size_of_cycle ok)

theorem Machine.exists_execution (m : Machine) :
    ∃ history last fault?, Execution m history last ∧ last.Stops fault? := by
  induction hn : m.cyclesLeft using Nat.strongRecOn generalizing m with
  | ind n ih =>
    cases running : m.status with
    | halted => exact ⟨[], m, none, .refl m, .halted running⟩
    | running =>
      cases hc : m.cycle with
      | error fault => exact ⟨[], m, some fault, .refl m, .failing running hc⟩
      | ok shown =>
        obtain ⟨effect, next⟩ := shown
        have hlt := Machine.cyclesLeft_lt_of_cycle running hc
        obtain ⟨history, last, fault?, he, hs⟩ := ih _ (hn ▸ hlt) next rfl
        exact ⟨_, last, fault?, .cycle running hc he, hs⟩

end LS8
