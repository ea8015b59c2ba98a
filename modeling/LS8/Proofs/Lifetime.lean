import LS8.Proofs.Commands

/-! How long a machine lasts. The program counter never leaves the memory and no command moves it
back, so the cells ahead of it bound the cycles that are left, whatever is written into them. -/

namespace LS8

section

variable {m next : Machine} {steps : List Step}

theorem Machine.Performed.memory_size (h : m.Performed steps next) :
    next.memory.size = m.memory.size := by
  cases h with
  | exchanged same => exact same
  | executed he => rw [he.memory_eq]

theorem Machine.Performed.pc_le_size (h : m.Performed steps next) (inside : m.pc ≤ m.memory.size) :
    next.pc ≤ next.memory.size := by
  cases h with
  | exchanged same => exact Nat.le_trans inside (Nat.le_of_eq same.symm)
  | executed he => exact he.pc_le_size inside

theorem Machine.Performed.length_add_cyclesLeft_le (h : m.Performed steps next) :
    steps.length + next.cyclesLeft ≤ m.cyclesLeft := by
  cases h with
  | exchanged same => simp [cyclesLeft, same]
  | executed he =>
    rw [History.steps, List.length_map]
    exact he.length_add_cyclesLeft_le

end

theorem Machine.memory_size_performAll (m : Machine) (commands : List Command) :
    (m.performAll commands).memory.size = m.memory.size := by
  induction commands generalizing m with
  | nil => rfl
  | cons command commands ih => exact (ih _).trans (m.performed command).memory_size

theorem Machine.pc_le_size_performAll {m : Machine} (inside : m.pc ≤ m.memory.size)
    (commands : List Command) :
    (m.performAll commands).pc ≤ (m.performAll commands).memory.size := by
  induction commands generalizing m with
  | nil => exact inside
  | cons command commands ih => exact ih ((m.performed command).pc_le_size inside)

/-- How many cycles succeed during the commands, all of them together. -/
def Machine.cyclesOf (m : Machine) : List Command → Nat
  | [] => 0
  | command :: commands =>
    (m.completedBy command).length + (m.perform command).cyclesOf commands

theorem Machine.cyclesOf_add_cyclesLeft_le (m : Machine) (commands : List Command) :
    m.cyclesOf commands + (m.performAll commands).cyclesLeft ≤ m.cyclesLeft := by
  induction commands generalizing m with
  | nil => exact Nat.le_of_eq (Nat.zero_add _)
  | cons command commands ih =>
    have hc := (m.performed command).length_add_cyclesLeft_le
    have hr := ih (m.perform command)
    have hp : m.performAll (command :: commands) = (m.perform command).performAll commands := rfl
    rw [hp, cyclesOf]
    omega

theorem Machine.cyclesLeft_le (m : Machine) : m.cyclesLeft ≤ m.memory.size - m.pc := by
  rw [cyclesLeft]
  split
  · exact Nat.le_refl _
  · exact Nat.zero_le _

theorem Machine.length_completed_le (m : Machine) (c : Console) :
    (m.completed c).length ≤ m.memory.size - m.pc := by
  have hr := (m.performed (.run c)).length_add_cyclesLeft_le
  have hl := m.cyclesLeft_le
  rw [completedBy] at hr
  omega

/-- The loop of a run, given up as soon as more cycles than the limit succeed. -/
def Machine.runWithin (limit : Nat) (m : Machine) (console : Console) (summary : Summary) :
    Option (Turn Summary) :=
  match m.status with
  | .halted => some ⟨.ok summary, m, console⟩
  | .running =>
    match m.step console with
    | ⟨.error fault, machine, shown⟩ => some ⟨.error fault, machine, shown⟩
    | ⟨.ok step, machine, shown⟩ =>
      match limit with
      | 0 => none
      | limit + 1 => machine.runWithin limit shown (summary.count step)

theorem Machine.runWithin_of_completed_nil {m : Machine} {c : Console} (none : m.completed c = [])
    (limit : Nat) (s : Summary) : m.runWithin limit c s = some (m.runFrom c s) := by
  cases running : m.status with
  | halted =>
    rw [runFrom_of_halted running]
    cases limit <;> simp only [runWithin, running]
  | running =>
    cases h : m.step c with
    | mk result next shown =>
      cases result with
      | error fault =>
        rw [runFrom_of_step_error running h]
        cases limit <;> simp only [runWithin, running, h]
      | ok step =>
        rw [completed_of_step_ok running h] at none
        cases none

theorem Machine.runWithin_of_length_le {limit : Nat} {m : Machine} {c : Console}
    (enough : (m.completed c).length ≤ limit) (s : Summary) :
    m.runWithin limit c s = some (m.runFrom c s) := by
  induction limit generalizing m c s with
  | zero => exact runWithin_of_completed_nil (List.eq_nil_of_length_eq_zero (by omega)) 0 s
  | succ limit ih =>
    cases running : m.status with
    | halted => exact runWithin_of_completed_nil (completed_of_halted running c) _ s
    | running =>
      cases h : m.step c with
      | mk result next shown =>
        cases result with
        | error fault => exact runWithin_of_completed_nil (completed_of_step_error h) _ s
        | ok step =>
          rw [completed_of_step_ok running h] at enough
          rw [runFrom_of_step_ok running h, ← ih (Nat.le_of_succ_le_succ enough), runWithin]
          simp only [running, h]

theorem Machine.pc_lt_of_step {m : Machine} {c : Console} {step : Step}
    (ok : (m.step c).result = .ok step) (going : step ≠ .halted) :
    m.pc < (m.step c).machine.pc := by
  have hs := m.stepped c
  generalize m.step c = turn at hs ok ⊢
  cases hs with
  | idle =>
    cases ok
    exact (going rfl).elim
  | failed | refused => cases ok
  | done _ hc =>
    cases ok
    exact pc_lt_of_cycle hc going

/-- As many cycles succeed in the life of a machine as its memory has cells, at most, and a run ends
within the cells ahead of the program counter. Sinks that differ from call to call stand for any
writer, since a call is over at the first output that is refused. -/
theorem Machine.lifetime {size : Nat} {start : Machine} (made : Fresh size start)
    (commands : List Command) :
    let m := start.performAll commands
    start.cyclesOf commands ≤ size ∧
      (∀ console, m.pc + (m.completed console).length ≤ size ∧
        m.runWithin (size - m.pc) console .empty = some (m.run console)) ∧
      ∀ console step, (m.step console).result = .ok step → step ≠ .halted →
        m.pc < (m.step console).machine.pc := by
  intro m
  obtain ⟨memory, rfl, rfl⟩ := made.eq_ofMemory
  have hs : m.memory.size = memory.size := memory_size_performAll _ commands
  have hp : m.pc ≤ m.memory.size := pc_le_size_performAll (Nat.zero_le _) commands
  have hc := cyclesOf_add_cyclesLeft_le (.ofMemory memory) commands
  refine ⟨?_, fun console => ?_, fun console step ok going => pc_lt_of_step ok going⟩
  · have hl := (ofMemory memory).cyclesLeft_le
    exact Nat.le_trans (Nat.le_trans (Nat.le_add_right _ _) hc) hl
  · have hl := m.length_completed_le console
    rw [hs] at hl hp
    exact ⟨by omega, runWithin_of_length_le hl .empty⟩

/-- A print that is refused its output, a halt written behind it, and the print once more. -/
theorem Machine.lifetime_rewritten :
    let closed : Console := ⟨.ofRoom 0, .empty .off⟩
    let commands : List Command :=
      [.poke 0 0x47, .run closed, .poke 2 0x01, .run ⟨.unlimited, .empty .off⟩]
    let m := Machine.blank.performAll commands
    Fresh minimumMemorySize .blank ∧ m.pc = 2 ∧ m.status = .halted ∧
      Machine.blank.cyclesOf commands = 2 ∧
      Machine.blank.cyclesOf commands ≤ minimumMemorySize ∧
      m.runWithin (minimumMemorySize - m.pc) closed .empty = some (m.run closed) := by
  intro closed commands m
  obtain ⟨total, ends, -⟩ := lifetime .blank commands
  refine ⟨.blank, ?_, ?_, ?_, total, (ends closed).2⟩
  all_goals decide +kernel

end LS8
