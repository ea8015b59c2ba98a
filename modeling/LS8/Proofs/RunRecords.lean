import LS8.Proofs.RaisedFaults
import LS8.Proofs.RunLog
import LS8.Proofs.TraceLines
import Mathlib.Data.List.Forall2

/-! The records of a run at the most verbose level, cycle by cycle. What a cycle leaves in the log is told
by the machine on which it begins, and the records of a run are those of the cycles it attempts. -/

namespace LS8

/-- The program counter, the three cells from there on and the registers. -/
def Machine.inView (m : Machine) : Snapshot where
  pc := m.pc
  window := [m.memory.peek? m.pc, m.memory.peek? (m.pc + 1), m.memory.peek? (m.pc + 2)]
  registers := m.registers

/-- What the log of everything holds of a cycle that begins on this machine: what is in view, and then a byte
that is no opcode or a halt if that is what stands at the program counter. -/
def Machine.records (m : Machine) : List Event :=
  .cycle m.inView ::
    match m.memory.peek? m.pc with
    | none => []
    | some byte =>
      match Operation.ofByte? byte with
      | none => [.skipped m.pc byte]
      | some .halt => [.halted m.pc]
      | some .add | some .loadImmediate | some .multiply | some .print => []

/-- The machines on which the cycles of a run begin, in order. The last of these cycles may fail. -/
def Machine.attempts (m : Machine) (c : Console) : List Machine :=
  match running : m.status with
  | .halted => []
  | .running =>
    match h : m.step c with
    | ⟨.error _, _, _⟩ => [m]
    | ⟨.ok _, next, shown⟩ =>
      have : next.cyclesLeft < m.cyclesLeft := by
        simpa only [h] using Machine.cyclesLeft_lt_of_step running (congrArg Turn.result h)
      m :: next.attempts shown
termination_by m.cyclesLeft

section Attempts

variable {m next : Machine} {c shown : Console}

theorem Machine.attempts_of_halted (halted : m.status = .halted) (c : Console) :
    m.attempts c = [] := by
  rw [attempts]
  split
  · rfl
  · rename_i running
    cases running.symm.trans halted

theorem Machine.attempts_of_step_ok {step : Step} (running : m.status = .running)
    (h : m.step c = ⟨.ok step, next, shown⟩) : m.attempts c = m :: next.attempts shown := by
  rw [attempts]
  split
  · rename_i halted
    cases running.symm.trans halted
  · split <;> rename_i he <;> cases h.symm.trans he
    rfl

theorem Machine.attempts_of_step_error {fault : Fault} (running : m.status = .running)
    (h : m.step c = ⟨.error fault, next, shown⟩) : m.attempts c = [m] := by
  rw [attempts]
  split
  · rename_i halted
    cases running.symm.trans halted
  · split <;> rename_i he <;> cases h.symm.trans he
    rfl

end Attempts

section Cycle

variable {m next : Machine} {effect : Effect}

end Cycle

/-- A run attempts the cycles that it completes, and if it fails one more, on the machine it leaves. -/
theorem Machine.exists_attempts (m : Machine) (c : Console) (s : Summary) :
    ∃ history, Execution m history (m.runFrom c s).machine ∧ m.completed c = history.steps ∧
      m.attempts c = history.map Prod.fst ++
        match (m.runFrom c s).result with
        | .ok _ => []
        | .error _ => [(m.runFrom c s).machine] := by
  induction m, c, s using Machine.runFrom.induct with
  | case1 m c s halted =>
    rw [runFrom_of_halted halted, attempts_of_halted halted, completed_of_halted halted]
    exact ⟨[], .refl m, rfl, rfl⟩
  | case2 m c s running fault next shown h =>
    have hs := m.stepped c
    rw [h] at hs
    rw [runFrom_of_step_error running h, attempts_of_step_error running h, completed_of_step_error h]
    cases hs with
    | failed | refused => exact ⟨[], .refl m, rfl, rfl⟩
  | case3 m c s running step next shown h _ ih =>
    have hs := m.stepped c
    rw [h] at hs
    rw [runFrom_of_step_ok running h, attempts_of_step_ok running h, completed_of_step_ok running h]
    obtain ⟨history, he, hdone, ha⟩ := ih
    cases hs with
    | idle halted => cases running.symm.trans halted
    | @done effect _ _ ok =>
      refine ⟨(m, effect) :: history, .cycle running ok he, ?_, ?_⟩
      · rw [hdone]
        rfl
      · rw [ha]
        rfl

/-- The warnings about bytes that were skipped, each given with its address. -/
def Event.ofSkips (skips : List (Nat × UInt8)) : List Event :=
  skips.map fun (address, byte) => .skipped address byte

theorem Event.filter_warn (events : List Event) :
    events.filter (·.level = .warn) = Event.ofSkips (events.filterMap Event.warning?) := by
  induction events with
  | nil => rfl
  | cons event events ih =>
    cases event with
    | skipped address byte => exact congrArg (.skipped address byte :: ·) ih
    | parsed | loaded | cycle | halted => exact ih

theorem Machine.result_runFrom_ok {m : Machine} {c : Console} {s summary : Summary}
    (h : (m.runFrom c s).result = .ok summary) :
    summary = (m.completed c).foldl Summary.count s := by
  induction m, c, s using Machine.runFrom.induct with
  | case1 m c s halted =>
    rw [runFrom_of_halted halted] at h
    rw [completed_of_halted halted]
    exact (Except.ok.inj h).symm
  | case2 m c s running fault next shown hs =>
    rw [runFrom_of_step_error running hs] at h
    cases h
  | case3 m c s running step next shown hs _ ih =>
    rw [runFrom_of_step_ok running hs] at h
    rw [completed_of_step_ok running hs]
    exact ih h

theorem Machine.result_run_ok {m : Machine} {c : Console} {summary : Summary}
    (h : (m.run c).result = .ok summary) : summary = .ofSteps (m.completed c) :=
  (result_runFrom_ok h).trans (Summary.foldl_count [] _)

end LS8
