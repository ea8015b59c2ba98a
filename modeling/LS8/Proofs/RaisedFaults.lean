import LS8.Proofs.Invariants
import LS8.Proofs.Padding
import LS8.Proofs.StepFailure

/-! The faults that execution can raise. A machine reached by any commands fails only on a register that
does not exist, on the first cell behind the memory, or for want of room in the sink. -/

namespace LS8

/-- What stands at the program counter of a machine of `size` cells that is left with a fault. -/
def Fault.RaisedBy (size : Nat) (m : Machine) : Fault → Prop
  | .registerOutOfBounds index =>
    registerCount ≤ index.toNat ∧ ∃ operation place, m.operation? = some operation ∧
      place < operation.registerOperands ∧ m.memory.peek? (m.pc + 1 + place) = some index
  | .memoryOutOfBounds address bound =>
    address = size ∧ bound = size ∧ (m.pc = size ∨ ∃ operation, m.operation? = some operation ∧
      m.pc < size ∧ size ≤ m.pc + operation.operandCount)
  | .outputClosed =>
    m.memory.peek? m.pc = some 0x47 ∧ ∃ index, m.memory.peek? (m.pc + 1) = some index ∧
      index.toNat < registerCount
  | .memoryTooSmall _ | .programTooLarge _ _ | .unsupportedOperation _ => False

theorem Machine.Blocked.raisedBy {m : Machine} {s : Sink} {cause : Cause} {fault : Fault}
    (h : m.Blocked s cause fault) (inside : m.pc ≤ m.memory.size) :
    fault.RaisedBy m.memory.size m := by
  cases h with
  | noOpcode outside =>
    have hp := Nat.le_antisymm inside outside
    exact ⟨hp, rfl, .inl hp⟩
  | @noOperand operation offset opcode pos le outside lowest =>
    have hp := pc_lt_size_of_operation? opcode
    have hlast := Memory.add_eq_size_of_lowest hp pos outside lowest
    exact ⟨hlast, rfl, .inr ⟨operation, opcode, hp, by omega⟩⟩
  | @badFirst operation index opcode names operand bad =>
    have named : 0 < operation.registerOperands := by
      cases operation with
      | loadImmediate | print | multiply => decide
      | add | halt => simp at names
    exact ⟨bad, operation, 0, opcode, named, operand⟩
  | badSecond opcode operand bad => exact ⟨bad, .multiply, 1, opcode, by decide, operand⟩
  | @refused register _ prints =>
    exact ⟨prints.cell, register.byte, prints.operand, Nat.lt_of_not_le register.not_le_toNat_byte⟩

theorem Machine.raisedBy_of_step {m : Machine} {c : Console} {fault : Fault}
    (running : m.status = .running) (inside : m.pc ≤ m.memory.size)
    (h : (m.step c).result = .error fault) : fault.RaisedBy m.memory.size m := by
  obtain ⟨cause, first⟩ := (step_eq_error_iff running).mp h
  exact first.blocked.raisedBy inside

theorem Machine.running_of_step_error {m : Machine} {c : Console} {fault : Fault}
    (h : (m.step c).result = .error fault) : m.status = .running ∧ (m.step c).machine = m := by
  have hs := m.stepped c
  generalize m.step c = turn at hs h ⊢
  cases hs with
  | idle | done => cases h
  | failed running | refused running => exact ⟨running, rfl⟩

/-- A run that fails does so in a step of the machine that it leaves. -/
theorem Machine.step_of_run_error {m : Machine} {c : Console} {fault : Fault}
    (h : (m.run c).result = .error fault) :
    (m.run c).machine.status = .running ∧
      ∃ shown, ((m.run c).machine.step shown).result = .error fault := by
  obtain ⟨history, last, fault?, he, hs⟩ := m.exists_execution
  by_cases fits : c.sink.Fits history.output
  · rw [he.run_eq hs fits] at h ⊢
    cases hs with
    | halted => cases h
    | failing running error =>
      cases h
      exact ⟨running, c, congrArg Turn.result (step_of_error running error c)⟩
  · obtain ⟨before, n, effect, after, hr⟩ := History.exists_refusedAt fits
    obtain ⟨-, running, next, ok, -⟩ := (hr.eq ▸ he).at_cycle
    rw [(he.run_eq_of_refusedAt hr).1] at h ⊢
    cases h
    have full : ¬ (c.follow before).sink.Fits effect.output := by
      rw [Console.sink_follow]
      exact hr.refused
    exact ⟨running, _, congrArg Turn.result (step_of_refused running ok full)⟩

theorem Memory.fetch_ne_add (m : Memory) (address : Nat) (target source : UInt8) :
    m.fetch address ≠ .ok (.arithmetic .add target source) := by
  intro h
  obtain ⟨byte, -, h⟩ := eq_ok_of_bind_eq_ok h
  cases ho : Operation.ofByte? byte with
  | none =>
    simp only [ho] at h
    cases h
  | some operation =>
    simp only [ho] at h
    cases operation with
    | add => exact Operation.ne_add_of_ofByte? ho rfl
    | halt => cases h
    | print =>
      obtain ⟨_, _, h⟩ := eq_ok_of_bind_eq_ok h
      cases h
    | loadImmediate | multiply =>
      obtain ⟨_, _, h⟩ := eq_ok_of_bind_eq_ok h
      obtain ⟨_, _, h⟩ := eq_ok_of_bind_eq_ok h
      cases h

theorem Machine.step_ne_add_of_cycle {m next : Machine} {effect : Effect}
    (h : m.cycle = .ok (effect, next)) : effect.step ≠ .executed .add := by
  have hc := m.cycled
  rw [h] at hc
  cases hc with
  | @item i => cases i <;> nofun
  | halt => nofun

theorem Execution.step_ne_add {m last : Machine} {history : History}
    (h : Execution m history last) : .executed .add ∉ history.steps := by
  induction h with
  | refl => nofun
  | cycle _ ok _ ih =>
    intro mem
    rcases List.mem_cons.mp mem with eq | mem
    · exact Machine.step_ne_add_of_cycle ok eq.symm
    · exact ih mem

/-- The faults of a step and of a run, of any machine that comes of commands, and that no addition is
ever fetched or carried out. The other faults are raised by commands from outside only. -/
theorem Machine.raised_faults {size : Nat} {start : Machine} (made : Fresh size start)
    (commands : List Command) (console : Console) :
    let m := start.performAll commands
    (∀ fault, (m.step console).result = .error fault →
      fault.RaisedBy size (m.step console).machine) ∧
      (∀ fault, (m.run console).result = .error fault →
        fault.RaisedBy size (m.run console).machine) ∧
      (m.step console).result ≠ .ok (.executed .add) ∧ .executed .add ∉ m.completed console ∧
      ∀ address target source, m.memory.fetch address ≠ .ok (.arithmetic .add target source) := by
  intro m
  obtain ⟨memory, rfl, rfl⟩ := made.eq_ofMemory
  have hs : m.memory.size = memory.size := memory_size_performAll _ commands
  have hp : m.pc ≤ m.memory.size := pc_le_size_performAll (Nat.zero_le _) commands
  refine ⟨fun fault h => ?_, fun fault h => ?_, fun h => ?_, ?_, m.memory.fetch_ne_add⟩
  · obtain ⟨running, same⟩ := running_of_step_error h
    rw [same, ← hs]
    exact raisedBy_of_step running hp h
  · obtain ⟨running, shown, failed⟩ := step_of_run_error h
    have inside : (m.run console).machine.pc ≤ (m.run console).machine.memory.size :=
      (m.performed (.run console)).pc_le_size hp
    rw [← hs, ← m.memory_run console]
    exact raisedBy_of_step running inside failed
  · have hs := m.stepped console
    generalize m.step console = turn at hs h
    cases hs with
    | idle | failed | refused => cases h
    | done _ ok => exact step_ne_add_of_cycle ok (Except.ok.inj h)
  · obtain ⟨history, he, hdone⟩ := m.exists_execution_run console
    rw [hdone]
    exact he.step_ne_add

/-- A print that is refused, then a product whose second factor is no register, and a memory without any
halt. -/
theorem Machine.raised_faults_each :
    let free : Console := ⟨.unlimited, .empty .off⟩
    let closed : Console := ⟨.ofRoom 0, .empty .off⟩
    let loaded : List Command := [.poke 0 0x47, .poke 2 0xA2, .poke 3 1, .poke 4 9]
    let m := Machine.blank.performAll loaded
    Fresh minimumMemorySize .blank ∧ (m.step closed).result = .error .outputClosed ∧
      Fault.outputClosed.RaisedBy minimumMemorySize (m.step closed).machine ∧
      (m.run free).result = .error (.registerOutOfBounds 9) ∧
      (Fault.registerOutOfBounds 9).RaisedBy minimumMemorySize (m.run free).machine ∧
      (Machine.blank.run free).result = .error (.memoryOutOfBounds 256 256) ∧
      (Fault.memoryOutOfBounds 256 256).RaisedBy minimumMemorySize (Machine.blank.run free).machine := by
  intro free closed loaded m
  obtain ⟨ofStep, -⟩ := raised_faults .blank loaded closed
  obtain ⟨-, ofRun, -⟩ := raised_faults .blank loaded free
  obtain ⟨-, atEnd, -⟩ := raised_faults .blank [] free
  have refused : (m.step closed).result = .error .outputClosed := by decide +kernel
  have bad : (m.run free).result = .error (.registerOutOfBounds 9) := by decide +kernel
  have zeros : (Sweep.mk (.replicate 256 .zero) (.missing 0)).Cuts (Machine.blank.memory.cellsFrom 0) :=
    @cuts_zeros [] [] rfl 256
  have outside : (Machine.blank.run free).result = .error (.memoryOutOfBounds 256 256) := by
    rw [(run_of_cuts rfl zeros (Sink.fits_of_unlimited rfl _)).1]
    decide +kernel
  exact ⟨.blank, refused, ofStep _ refused, bad, ofRun _ bad, outside, atEnd _ outside⟩

end LS8
