import LS8.Proofs.Running

/-! Runs taken step by step. Some steps, up to the first that fails, and then a run from where they
have led, come to the same as one run. -/

namespace LS8

def Turn.map {α β : Type} (f : α → β) (t : Turn α) : Turn β where
  result := t.result.map f
  machine := t.machine
  console := t.console

/-- At most `k` steps, up to the first that fails, each with the status in which it began. -/
def Machine.steps (m : Machine) (c : Console) : Nat → Turn (List (Status × Step))
  | 0 => ⟨.ok [], m, c⟩
  | k + 1 =>
    match m.step c with
    | ⟨.error fault, next, shown⟩ => ⟨.error fault, next, shown⟩
    | ⟨.ok step, next, shown⟩ => (next.steps shown k).map ((m.status, step) :: ·)

def Summary.append (s t : Summary) : Summary := ⟨s.cycles + t.cycles, s.skipped ++ t.skipped⟩

/-- What steps add to a summary: a cycle for each that began on a running machine. -/
def Summary.ofTaken (taken : List (Status × Step)) : Summary where
  cycles := taken.countP (·.1 = .running)
  skipped := (taken.filterMap fun (_, step) => step.skipped?).toArray

theorem Summary.append_assoc (s t u : Summary) : (s.append t).append u = s.append (t.append u) := by
  simp [append, Nat.add_assoc, Array.append_assoc]

theorem Summary.append_count (s t : Summary) (step : Step) :
    s.append (t.count step) = (s.append t).count step := by
  cases step <;> simp [append, count, Nat.add_assoc]

theorem Summary.empty_append (s : Summary) : Summary.empty.append s = s := by
  simp [append, empty]

theorem Summary.append_empty (s : Summary) : s.append .empty = s := by
  simp [append, empty]

theorem Summary.ofTaken_running (step : Step) (taken : List (Status × Step)) :
    ofTaken ((.running, step) :: taken) = (empty.count step).append (ofTaken taken) := by
  cases step <;> simp [ofTaken, append, empty, count, Step.skipped?, Nat.add_comm 1]

theorem Summary.ofTaken_halted (taken : List (Status × Step)) :
    ofTaken ((.halted, .halted) :: taken) = ofTaken taken := by
  simp [ofTaken, Step.skipped?]

theorem Turn.map_map {α β γ : Type} (f : β → γ) (g : α → β) (t : Turn α) :
    (t.map g).map f = t.map fun a => f (g a) := by
  obtain ⟨_ | _, _, _⟩ := t <;> rfl

theorem Machine.runFrom_append (m : Machine) (c : Console) (s t : Summary) :
    m.runFrom c (s.append t) = (m.runFrom c t).map s.append := by
  induction m, c, t using Machine.runFrom.induct with
  | case1 m c t halted =>
    rw [runFrom_of_halted halted, runFrom_of_halted halted]
    rfl
  | case2 m c t running fault next shown h =>
    rw [runFrom_of_step_error running h, runFrom_of_step_error running h]
    rfl
  | case3 m c t running step next shown h _ ih =>
    rw [runFrom_of_step_ok running h, runFrom_of_step_ok running h, ← ih, Summary.append_count]

theorem Machine.run_of_step_ok {m next : Machine} {step : Step} {c shown : Console}
    (running : m.status = .running) (h : m.step c = ⟨.ok step, next, shown⟩) :
    m.run c = (next.run shown).map (Summary.empty.count step).append := by
  rw [run, runFrom_of_step_ok running h, run, ← runFrom_append, Summary.append_empty]

def Turn.andRun (t : Turn (List (Status × Step))) : Turn Summary :=
  match t.result with
  | .error fault => ⟨.error fault, t.machine, t.console⟩
  | .ok taken => (t.machine.run t.console).map (Summary.ofTaken taken).append

theorem Turn.andRun_halted (t : Turn (List (Status × Step))) :
    (t.map ((.halted, .halted) :: ·)).andRun = t.andRun := by
  obtain ⟨_ | taken, next, shown⟩ := t
  · rfl
  · show (next.run shown).map _ = _
    rw [Summary.ofTaken_halted]
    rfl

theorem Turn.andRun_running (t : Turn (List (Status × Step))) (step : Step) :
    (t.map ((.running, step) :: ·)).andRun = t.andRun.map (Summary.empty.count step).append := by
  obtain ⟨_ | taken, next, shown⟩ := t
  · rfl
  · have h : (Turn.mk (.ok taken) next shown).andRun =
        (next.run shown).map (Summary.ofTaken taken).append := rfl
    rw [h, map_map]
    show (next.run shown).map _ = _
    rw [Summary.ofTaken_running]
    exact congrArg (Turn.map · _) (funext (Summary.append_assoc _ _))

theorem Machine.run_eq_andRun (m : Machine) (c : Console) (k : Nat) :
    m.run c = (m.steps c k).andRun := by
  induction k generalizing m c with
  | zero =>
    have he : (Summary.ofTaken []).append = id := funext Summary.empty_append
    show m.run c = (m.run c).map _
    rw [he]
    obtain ⟨_ | _, _, _⟩ := m.run c <;> rfl
  | succ k ih =>
    cases status : m.status with
    | halted =>
      -- the step is taken and not counted
      rw [steps, step_of_halted status]
      simp only [status, Turn.andRun_halted]
      exact ih m c
    | running =>
      cases h : m.step c with
      | mk result next shown =>
        cases result with
        | error fault =>
          rw [steps, h, run, runFrom_of_step_error status h]
          rfl
        | ok step =>
          rw [steps, h, run_of_step_ok status h, ih next shown]
          simp only [status, Turn.andRun_running]

/-- A run against some steps, on the same console, and a run after them. A step that fails is where the
run fails. Else the run comes to the same end, and its summary counts the steps that began on a running
machine and the cycles of the second run. -/
theorem Machine.run_eq_steps_run (m : Machine) (c : Console) (k : Nat) :
    let whole := m.run c
    let taken := m.steps c k
    let rest := taken.machine.run taken.console
    (∀ fault, taken.result = .error fault →
      whole = ⟨.error fault, taken.machine, taken.console⟩) ∧
    ∀ steps, taken.result = .ok steps →
      whole.machine = rest.machine ∧ whole.console = rest.console ∧
        (∀ fault, whole.result = .error fault ↔ rest.result = .error fault) ∧
        ∀ summary, rest.result = .ok summary → ∃ total, whole.result = .ok total ∧
          total.cycles = (steps.filter fun (status, _) => status = .running).length + summary.cycles ∧
          total.skipped.toList =
            (steps.filterMap fun (_, step) => step.skipped?) ++ summary.skipped.toList := by
  intro whole taken rest
  have split : whole = taken.andRun := m.run_eq_andRun c k
  constructor
  · intro fault failed
    rw [split, Turn.andRun, failed]
  · intro steps ok
    have joined : whole = rest.map (Summary.ofTaken steps).append := by
      rw [split, Turn.andRun, ok]
    refine ⟨by rw [joined]; rfl, by rw [joined]; rfl, fun fault => ?_, fun summary done => ?_⟩
    · rw [joined, Turn.map]
      cases rest.result <;> simp [Except.map]
    · refine ⟨(Summary.ofTaken steps).append summary, ?_, ?_, ?_⟩
      · rw [joined, Turn.map, done]
        rfl
      · rw [← List.countP_eq_length_filter]
        rfl
      · exact Array.toList_append

/-- A byte that is no opcode, a line, a halt and a step after it. -/
theorem Machine.run_eq_steps_run_past_halt :
    let m : Machine := ⟨.zero, 0, ⟨#[0xFF, 0x47, 0, 0x01]⟩, .running⟩
    let c : Console := ⟨.ofRoom 2, .empty .off⟩
    let taken := m.steps c 4
    taken.result = .ok [(.running, .skipped 0 0xFF), (.running, .executed .print),
        (.running, .halted), (.halted, .halted)] ∧
      (taken.machine.run taken.console).result = .ok ⟨0, #[]⟩ ∧
      ∃ total, (m.run c).result = .ok total ∧ total.cycles = 3 ∧
        total.skipped.toList = [(0, 0xFF)] := by
  intro m c taken
  have ok : taken.result = .ok [(.running, .skipped 0 0xFF), (.running, .executed .print),
      (.running, .halted), (.halted, .halted)] := by
    decide +kernel
  have done : (taken.machine.run taken.console).result = .ok ⟨0, #[]⟩ := by decide +kernel
  obtain ⟨-, -, -, totals⟩ := (run_eq_steps_run m c 4).2 _ ok
  exact ⟨ok, done, totals _ done⟩

end LS8
