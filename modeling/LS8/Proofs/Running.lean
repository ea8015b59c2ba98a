import LS8.Proofs.Execution
import Mathlib.Control.Monad.Basic

/-! Runs as executions. As long as the sink has room, a run with a console carries out the cycles of
the execution; it stops where the execution stops, or at the first output that the sink refuses. -/

namespace LS8

def History.output (h : History) : List UInt8 := h.flatMap fun (_, effect) => effect.output

def History.steps (h : History) : List Step := h.map fun (_, effect) => effect.step

theorem History.output_append (before after : History) :
    History.output (before ++ after) = before.output ++ after.output :=
  List.flatMap_append

theorem History.steps_append (before after : History) :
    History.steps (before ++ after) = before.steps ++ after.steps :=
  List.map_append

theorem History.output_singleton (m : Machine) (effect : Effect) :
    History.output [(m, effect)] = effect.output :=
  List.append_nil _

def Step.skipped? : Step → Option (Nat × UInt8)
  | .skipped address byte => some (address, byte)
  | .executed _ | .halted => none

def Summary.ofSteps (steps : List Step) : Summary :=
  ⟨steps.length, (steps.filterMap Step.skipped?).toArray⟩

theorem Summary.foldl_count (before after : List Step) :
    after.foldl Summary.count (.ofSteps before) = .ofSteps (before ++ after) := by
  induction after generalizing before with
  | nil => simp
  | cons step after ih =>
    have hc : (Summary.ofSteps before).count step = .ofSteps (before ++ [step]) := by
      cases step <;> simp [ofSteps, count, Step.skipped?]
    rw [List.foldl_cons, hc, ih, List.append_assoc, List.singleton_append]

/-- The console after the cycles of a history were shown on it. -/
def Console.follow (c : Console) (h : History) : Console :=
  h.foldl (fun c (m, effect) => (c.note (.cycle m.snapshot)).display effect) c

theorem Console.sink_display (c : Console) (effect : Effect) :
    (c.display effect).sink = c.sink.offer effect.output := by
  cases effect <;> rfl

theorem Console.sink_follow (c : Console) (h : History) :
    (c.follow h).sink = c.sink.offer h.output := by
  induction h generalizing c with
  | nil => exact c.sink.offer_nil.symm
  | cons cycle h ih =>
    obtain ⟨m, effect⟩ := cycle
    have hd := (c.note (.cycle m.snapshot)).sink_display effect
    calc (c.follow ((m, effect) :: h)).sink
        = ((c.note (.cycle m.snapshot)).display effect).sink.offer (History.output h) := ih _
      _ = (c.sink.offer effect.output).offer (History.output h) := by rw [hd]; rfl
      _ = c.sink.offer (effect.output ++ History.output h) := (Sink.offer_append ..).symm

section Step

variable {m next : Machine} {effect : Effect}

theorem Machine.step_of_error {fault : Fault} (running : m.status = .running)
    (error : m.cycle = .error fault) (c : Console) :
    m.step c = ⟨.error fault, m, c.note (.cycle m.snapshot)⟩ := by
  rw [step_of_running running, error]
  rfl

theorem Machine.step_of_fits {c : Console} (running : m.status = .running)
    (ok : m.cycle = .ok (effect, next)) (fits : c.sink.Fits effect.output) :
    m.step c = ⟨.ok effect.step, next, c.follow [(m, effect)]⟩ := by
  have hf : (c.note (.cycle m.snapshot)).sink.Fits effect.output := fits
  rw [step_of_running running, ok, shown, if_pos hf]
  rfl

theorem Machine.step_of_refused {c : Console} (running : m.status = .running)
    (ok : m.cycle = .ok (effect, next)) (refused : ¬ c.sink.Fits effect.output) :
    m.step c = ⟨.error .outputClosed, m, c.follow [(m, effect)]⟩ := by
  have hf : ¬ (c.note (.cycle m.snapshot)).sink.Fits effect.output := refused
  rw [step_of_running running, ok, shown, if_neg hf]
  rfl

/-- All that a step can come to. -/
inductive Machine.Stepped (m : Machine) (c : Console) : Turn Step → Prop
  | idle (halted : m.status = .halted) : Stepped m c ⟨.ok .halted, m, c⟩
  | failed {fault : Fault} (running : m.status = .running) (error : m.cycle = .error fault) :
      Stepped m c ⟨.error fault, m, c.note (.cycle m.snapshot)⟩
  | refused {effect : Effect} {next : Machine} (running : m.status = .running)
      (ok : m.cycle = .ok (effect, next)) (refused : ¬ c.sink.Fits effect.output) :
      Stepped m c ⟨.error .outputClosed, m, c.follow [(m, effect)]⟩
  | done {effect : Effect} {next : Machine} (running : m.status = .running)
      (ok : m.cycle = .ok (effect, next)) (fits : c.sink.Fits effect.output) :
      Stepped m c ⟨.ok effect.step, next, c.follow [(m, effect)]⟩

theorem Machine.stepped (m : Machine) (c : Console) : m.Stepped c (m.step c) := by
  cases running : m.status with
  | halted =>
    rw [step_of_halted running]
    exact .idle running
  | running =>
    cases hc : m.cycle with
    | error fault =>
      rw [step_of_error running hc]
      exact .failed running hc
    | ok shown =>
      obtain ⟨effect, next⟩ := shown
      by_cases fits : c.sink.Fits effect.output
      · rw [step_of_fits running hc fits]
        exact .done running hc fits
      · rw [step_of_refused running hc fits]
        exact .refused running hc fits

theorem Machine.runFrom_of_halted (halted : m.status = .halted) (c : Console) (s : Summary) :
    m.runFrom c s = ⟨.ok s, m, c⟩ := by
  rw [runFrom]
  split
  · rfl
  · rename_i running
    cases running.symm.trans halted

theorem Machine.runFrom_of_step_ok {step : Step} {c shown : Console} (running : m.status = .running)
    (h : m.step c = ⟨.ok step, next, shown⟩) (s : Summary) :
    m.runFrom c s = next.runFrom shown (s.count step) := by
  rw [runFrom]
  split
  · rename_i halted
    cases running.symm.trans halted
  · split <;> rename_i he <;> cases h.symm.trans he
    rfl

theorem Machine.runFrom_of_step_error {fault : Fault} {c shown : Console}
    (running : m.status = .running) (h : m.step c = ⟨.error fault, next, shown⟩) (s : Summary) :
    m.runFrom c s = ⟨.error fault, next, shown⟩ := by
  rw [runFrom]
  split
  · rename_i halted
    cases running.symm.trans halted
  · split <;> rename_i he <;> cases h.symm.trans he
    rfl

end Step

/-- The steps of a run that succeed, in order. A run that fails has taken them too, though it does
not report them. -/
def Machine.completed (m : Machine) (c : Console) : List Step :=
  match running : m.status with
  | .halted => []
  | .running =>
    match h : m.step c with
    | ⟨.error _, _, _⟩ => []
    | ⟨.ok step, machine, shown⟩ =>
      have : machine.cyclesLeft < m.cyclesLeft := by
        simpa only [h] using Machine.cyclesLeft_lt_of_step running (congrArg Turn.result h)
      step :: machine.completed shown
termination_by m.cyclesLeft

theorem Machine.completed_of_halted {m : Machine} (halted : m.status = .halted) (c : Console) :
    m.completed c = [] := by
  rw [completed]
  split
  · rfl
  · rename_i running
    cases running.symm.trans halted

theorem Machine.completed_of_step_ok {m next : Machine} {step : Step} {c shown : Console}
    (running : m.status = .running) (h : m.step c = ⟨.ok step, next, shown⟩) :
    m.completed c = step :: next.completed shown := by
  rw [completed]
  split
  · rename_i halted
    cases running.symm.trans halted
  · split <;> rename_i he <;> cases h.symm.trans he
    rfl

theorem Machine.completed_of_step_error {m next : Machine} {fault : Fault} {c shown : Console}
    (h : m.step c = ⟨.error fault, next, shown⟩) : m.completed c = [] := by
  rw [completed]
  split
  · rfl
  · split <;> rename_i he <;> cases h.symm.trans he
    rfl

/-- What a run gives that has reached a machine which stops. -/
def Machine.finish (m : Machine) (fault? : Option Fault) (c : Console) (s : Summary) :
    Turn Summary where
  result :=
    match fault? with
    | none => .ok s
    | some fault => .error fault
  machine := m
  console :=
    match fault? with
    | none => c
    | some _ => c.note (.cycle m.snapshot)

theorem Machine.sink_finish (m : Machine) (fault? : Option Fault) (c : Console) (s : Summary) :
    (m.finish fault? c s).console.sink = c.sink := by
  cases fault? <;> rfl

section Execution

variable {m last : Machine} {history : History} {fault? : Option Fault} {c : Console}

/-- A run that has room for the output of an execution goes through it. -/
theorem Execution.runFrom_eq (h : Execution m history last)
    (fits : c.sink.Fits history.output) (s : Summary) :
    m.runFrom c s = last.runFrom (c.follow history) (history.steps.foldl Summary.count s) := by
  induction h generalizing c s with
  | refl => rfl
  | @cycle m next last effect history running ok _ ih =>
    obtain ⟨hf, hr⟩ := Sink.fits_append.mp fits
    rw [Machine.runFrom_of_step_ok running (Machine.step_of_fits running ok hf)]
    refine ih ?_ (s.count effect.step)
    rwa [Console.sink_follow, History.output_singleton]

theorem Execution.completed_append (h : Execution m history last)
    (fits : c.sink.Fits history.output) :
    m.completed c = history.steps ++ last.completed (c.follow history) := by
  induction h generalizing c with
  | refl => rfl
  | @cycle m next last effect history running ok _ ih =>
    obtain ⟨hf, hr⟩ := Sink.fits_append.mp fits
    rw [Machine.completed_of_step_ok running (Machine.step_of_fits running ok hf)]
    refine congrArg (effect.step :: ·) (ih ?_)
    rwa [Console.sink_follow, History.output_singleton]

theorem Machine.Stops.runFrom_eq (stops : m.Stops fault?) (c : Console) (s : Summary) :
    m.runFrom c s = m.finish fault? c s := by
  cases stops with
  | halted halted => exact runFrom_of_halted halted c s
  | failing running error => exact runFrom_of_step_error running (step_of_error running error c) s

theorem Machine.Stops.completed_eq (stops : m.Stops fault?) (c : Console) : m.completed c = [] := by
  cases stops with
  | halted halted => exact completed_of_halted halted c
  | failing running error => exact completed_of_step_error (step_of_error running error c)

theorem Execution.run_eq (h : Execution m history last) (stops : last.Stops fault?)
    (fits : c.sink.Fits history.output) :
    m.run c = last.finish fault? (c.follow history) (.ofSteps history.steps) := by
  rw [Machine.run, h.runFrom_eq fits, stops.runFrom_eq]
  exact congrArg _ (Summary.foldl_count [] history.steps)

theorem Execution.accepted_run (h : Execution m history last) (stops : last.Stops fault?)
    (fits : c.sink.Fits history.output) :
    (m.run c).console.sink.accepted.toList = c.sink.accepted.toList ++ history.output := by
  rw [h.run_eq stops fits, Machine.sink_finish, Console.sink_follow,
    Sink.accepted_offer_of_fits fits]

theorem Execution.completed_eq (h : Execution m history last) (stops : last.Stops fault?)
    (fits : c.sink.Fits history.output) : m.completed c = history.steps := by
  rw [h.completed_append fits, stops.completed_eq, List.append_nil]

end Execution

/-- The output of the cycle of `n` is the first in the history that the sink refuses. -/
structure History.RefusedAt (h : History) (s : Sink) (before : History) (n : Machine)
    (effect : Effect) (after : History) : Prop where
  eq : h = before ++ (n, effect) :: after
  fits : s.Fits before.output
  refused : ¬ (s.offer before.output).Fits effect.output

theorem History.RefusedAt.output_eq {h before after : History} {s : Sink} {n : Machine}
    {effect : Effect} (hr : h.RefusedAt s before n effect after) :
    h.output = before.output ++ effect.output ++ after.output := by
  rw [hr.eq, History.output_append, List.append_assoc]
  rfl

theorem History.exists_refusedAt {h : History} {s : Sink} (refused : ¬ s.Fits h.output) :
    ∃ before n effect after, h.RefusedAt s before n effect after := by
  induction h generalizing s with
  | nil => exact (refused s.fits_nil).elim
  | cons cycle h ih =>
    obtain ⟨m, effect⟩ := cycle
    by_cases hf : s.Fits effect.output
    · have hr : ¬ (s.offer effect.output).Fits (History.output h) :=
        fun hr => refused (Sink.fits_append.mpr ⟨hf, hr⟩)
      obtain ⟨before, n, last, after, hb⟩ := ih hr
      refine ⟨(m, effect) :: before, n, last, after, by rw [hb.eq]; rfl, ?_, ?_⟩
      · exact Sink.fits_append.mpr ⟨hf, hb.fits⟩
      · have ha := hb.refused
        rwa [← Sink.offer_append] at ha
    · exact ⟨[], m, effect, h, rfl, s.fits_nil, by rwa [output, List.flatMap_nil, Sink.offer_nil]⟩

theorem Effect.printed_of_not_fits {effect : Effect} {s : Sink} (refused : ¬ s.Fits effect.output) :
    ∃ value, effect = .printed value := by
  cases effect with
  | printed value => exact ⟨value, rfl⟩
  | skipped | halted | computed => exact (refused s.fits_nil).elim

/-- A run ends at the first output that the sink refuses, on the machine that should print it. -/
theorem Execution.run_eq_of_refusedAt {m n last : Machine} {effect : Effect}
    {history before after : History} {c : Console} (h : Execution m history last)
    (hr : history.RefusedAt c.sink before n effect after) :
    m.run c = ⟨.error .outputClosed, n, c.follow (before ++ [(n, effect)])⟩ ∧
      m.completed c = before.steps := by
  obtain ⟨rfl, fits, refused⟩ := hr
  obtain ⟨hb, running, next, ok, _⟩ := h.at_cycle
  have hf : ¬ (c.follow before).sink.Fits effect.output := by rwa [Console.sink_follow]
  have hs := Machine.step_of_refused running ok hf
  constructor
  · rw [Machine.run, hb.runFrom_eq fits, Machine.runFrom_of_step_error running hs]
    simp [Console.follow, List.foldl_append]
  · rw [hb.completed_append fits, Machine.completed_of_step_error hs, List.append_nil]

/-- Each run is an execution, whether it is refused output or not. -/
theorem Machine.exists_execution_run (m : Machine) (c : Console) :
    ∃ history, Execution m history (m.run c).machine ∧ m.completed c = history.steps := by
  obtain ⟨history, last, fault?, he, hs⟩ := m.exists_execution
  by_cases fits : c.sink.Fits history.output
  · refine ⟨history, ?_, he.completed_eq hs fits⟩
    rw [he.run_eq hs fits]
    exact he
  · obtain ⟨before, n, effect, after, hr⟩ := History.exists_refusedAt fits
    obtain ⟨hrun, hdone⟩ := he.run_eq_of_refusedAt hr
    refine ⟨before, ?_, hdone⟩
    rw [hrun]
    exact (hr.eq ▸ he).at_cycle.1

end LS8
