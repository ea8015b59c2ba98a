import LS8.Proofs.Invariants
import LS8.Proofs.Resumption
import LS8.Proofs.StepByStep

/-! Outcomes that are final. After a halt, or a failure for any reason but the sink, each later run and
step comes to the same and shows nothing, as long as no cell is written; after a halt also then. -/

namespace LS8

/-- None of the commands changes a cell, be it that it does not write or that it is refused. -/
def Machine.Undisturbed (m : Machine) : List Command → Prop
  | [] => True
  | command :: commands =>
    (m.perform command).memory = m.memory ∧ (m.perform command).Undisturbed commands

/-- Commands that change no cell leave the machine as it is. So each run or step among them is one of this
machine: whatever its console, it has the same result, gives the sink nothing and changes nothing. -/
structure Machine.Settled (m : Machine) (ran : Except Fault Summary) (stepped : Except Fault Step) :
    Prop where
  stays {commands : List Command} (undisturbed : m.Undisturbed commands) : m.performAll commands = m
  run (c : Console) :
    (m.run c).result = ran ∧ (m.run c).machine = m ∧ (m.run c).console.sink = c.sink
  step (c : Console) :
    (m.step c).result = stepped ∧ (m.step c).machine = m ∧ (m.step c).console.sink = c.sink

section Stops

variable {m : Machine} {fault? : Option Fault}

theorem Machine.Stops.perform_eq (stops : m.Stops fault?) {command : Command}
    (same : (m.perform command).memory = m.memory) : m.perform command = m := by
  have hp := m.performed command
  generalize m.completedBy command = steps at hp
  generalize m.perform command = next at hp same
  cases hp with
  | exchanged =>
    obtain rfl := same
    rfl
  | executed h => exact stops.eq_of_execution h

theorem Machine.Stops.performAll_eq (stops : m.Stops fault?) {commands : List Command}
    (undisturbed : m.Undisturbed commands) : m.performAll commands = m := by
  induction commands with
  | nil => rfl
  | cons command commands ih =>
    obtain ⟨same, rest⟩ := undisturbed
    have stays := stops.perform_eq same
    rw [stays] at rest
    calc m.performAll (command :: commands) = (m.perform command).performAll commands := rfl
      _ = m.performAll commands := by rw [stays]
      _ = m := ih rest

theorem Machine.settled_of_halted (halted : m.status = .halted) :
    m.Settled (.ok .empty) (.ok .halted) where
  stays := (Stops.halted halted).performAll_eq
  run c := by
    rw [run, runFrom_of_halted halted]
    exact ⟨rfl, rfl, rfl⟩
  step c := by
    rw [step_of_halted halted]
    exact ⟨rfl, rfl, rfl⟩

theorem Machine.settled_of_failing {fault : Fault} (running : m.status = .running)
    (error : m.cycle = .error fault) : m.Settled (.error fault) (.error fault) where
  stays := (Stops.failing running error).performAll_eq
  run c := by
    -- the failing cycle is noted in the log, which the sink does not see
    rw [run, (Stops.failing running error).runFrom_eq]
    exact ⟨rfl, rfl, rfl⟩
  step c := by
    rw [step_of_error running error]
    exact ⟨rfl, rfl, rfl⟩

end Stops

/-- A run that is not refused output leaves a machine that stops, for the reason that it gives. -/
theorem Machine.exists_stops_of_run {m : Machine} {c : Console}
    (room : (m.run c).result ≠ .error .outputClosed) :
    ∃ fault?, (m.run c).machine.Stops fault? ∧
      ∀ fault, (m.run c).result = .error fault ↔ fault? = some fault := by
  obtain ⟨history, last, fault?, he, hs⟩ := m.exists_execution
  have fits : c.sink.Fits history.output :=
    Decidable.byContradiction fun refused => room ((he.result_eq_outputClosed_iff hs).mpr refused)
  rw [he.run_eq hs fits]
  refine ⟨fault?, hs, fun fault => ?_⟩
  cases fault? <;> simp [finish]

theorem Machine.settled_of_run_error {m : Machine} {c : Console} {fault : Fault}
    (h : (m.run c).result = .error fault) (room : fault ≠ .outputClosed) :
    (m.run c).machine.Settled (.error fault) (.error fault) := by
  have hroom : (m.run c).result ≠ .error .outputClosed := by
    rw [h]
    exact fun closed => room (Except.error.inj closed)
  obtain ⟨fault?, stops, reason⟩ := exists_stops_of_run hroom
  obtain rfl := (reason fault).mp h
  cases stops with
  | failing running error => exact settled_of_failing running error

theorem Machine.settled_of_step_error {m : Machine} {c : Console} {fault : Fault}
    (h : (m.step c).result = .error fault) (room : fault ≠ .outputClosed) :
    (m.step c).machine.Settled (.error fault) (.error fault) := by
  have hs := m.stepped c
  generalize m.step c = turn at hs h ⊢
  cases hs with
  | idle | done => cases h
  | failed running error =>
    cases h
    exact settled_of_failing running error
  | refused => exact (room (Except.error.inj h).symm).elim

theorem Machine.halted_of_run_ok {m : Machine} {c : Console} {summary : Summary}
    (h : (m.run c).result = .ok summary) : (m.run c).machine.status = .halted := by
  have room : (m.run c).result ≠ .error .outputClosed := by
    rw [h]
    nofun
  obtain ⟨fault?, stops, reason⟩ := exists_stops_of_run room
  cases stops with
  | halted halted => exact halted
  | failing => cases h.symm.trans ((reason _).mpr rfl)

/-- After a run that ended well nothing runs any more, whatever is loaded, written or called: there are no
cycles and no skipped bytes. After a run or a step that failed, but for want of room in the sink, each
later one fails with the same fault until a cell is changed. -/
theorem Machine.outcomes_final (m : Machine) (c : Console) :
    (∀ summary, (m.run c).result = .ok summary →
      ∀ later, ((m.run c).machine.performAll later).Settled (.ok ⟨0, #[]⟩) (.ok .halted)) ∧
    ∀ fault, fault ≠ .outputClosed →
      ((m.run c).result = .error fault →
        (m.run c).machine.Settled (.error fault) (.error fault)) ∧
      ((m.step c).result = .error fault →
        (m.step c).machine.Settled (.error fault) (.error fault)) := by
  refine ⟨fun summary ok later => ?_, fun fault room => ⟨fun h => ?_, fun h => ?_⟩⟩
  · obtain ⟨memory, hn⟩ := performAll_of_halted (halted_of_run_ok ok) later
    rw [hn]
    exact settled_of_halted (halted_of_run_ok ok)
  · exact settled_of_run_error h room
  · exact settled_of_step_error h room

/-- A halt that is overwritten afterwards, and a register that does not exist, with a refused poke, one
that writes what is there already, and a full sink among the later commands. -/
theorem Machine.outcomes_final_retried :
    let free : Console := ⟨.unlimited, .empty .off⟩
    let closed : Console := ⟨.ofRoom 0, .empty .off⟩
    let halting : Machine := ⟨.zero, 0, ⟨#[0xFF, 0x01, 0x47, 0]⟩, .running⟩
    let failing : Machine := ⟨.zero, 0, ⟨#[0x47, 0, 0x82, 9, 1]⟩, .running⟩
    let overwriting : List Command := [.poke 1 0x47, .run free, .step closed]
    let retrying : List Command := [.step closed, .poke 77 1, .poke 3 9, .run free]
    let n := (halting.run free).machine.performAll overwriting
    let k := (failing.run free).machine
    (halting.run free).result = .ok ⟨2, #[(0, 0xFF)]⟩ ∧ n.memory.peek? 1 = some 0x47 ∧
      (n.run free).result = .ok ⟨0, #[]⟩ ∧ (n.run free).machine = n ∧
      (failing.run free).result = .error (.registerOutOfBounds 9) ∧ k.pc = 2 ∧
      k.Undisturbed retrying ∧ k.performAll retrying = k ∧
      (k.run closed).result = .error (.registerOutOfBounds 9) := by
  intro free closed halting failing overwriting retrying n k
  have ok : (halting.run free).result = .ok ⟨2, #[(0, 0xFF)]⟩ := by decide +kernel
  have error : (failing.run free).result = .error (.registerOutOfBounds 9) := by decide +kernel
  have undisturbed : k.Undisturbed retrying := by
    refine ⟨?_, ?_, ?_, ?_, trivial⟩
    all_goals decide +kernel
  have done := (outcomes_final halting free).1 _ ok overwriting
  have failed := ((outcomes_final failing free).2 (.registerOutOfBounds 9) nofun).1 error
  refine ⟨ok, ?_, (done.run free).1, (done.run free).2.1, error, ?_, undisturbed,
    failed.stays undisturbed, (failed.run closed).1⟩
  all_goals decide +kernel

end LS8
