import LS8.Proofs.Running

/-! What can be asked of a machine from outside, in any order and as often as one likes. A command
exchanges the memory for another one of the same size, or it goes through an execution. -/

namespace LS8

inductive Command where
  | load (image : Image) (console : Console)
  | poke (address : Nat) (value : UInt8)
  | step (console : Console)
  | run (console : Console)

/-- The machine after a command, which may have failed. -/
def Machine.perform (m : Machine) : Command → Machine
  | .load image console => (m.load image console).machine
  | .poke address value => (m.poke address value).2
  | .step console => (m.step console).machine
  | .run console => (m.run console).machine

def Machine.performAll (m : Machine) (commands : List Command) : Machine :=
  commands.foldl Machine.perform m

/-- What the cycles report that succeed during a command. A machine that has halted takes no cycle
when it is asked for a step. -/
def Machine.completedBy (m : Machine) : Command → List Step
  | .load _ _ | .poke _ _ => []
  | .step console =>
    match m.status, (m.step console).result with
    | .running, .ok step => [step]
    | .running, .error _ | .halted, _ => []
  | .run console => m.completed console

/-- A machine as it is made, with a memory of the given size. -/
inductive Machine.Fresh : Nat → Machine → Prop
  | blank : Fresh minimumMemorySize .blank
  | ofSize {size : Nat} {m : Machine} (h : Machine.ofSize size = .ok m) : Fresh size m

theorem Machine.Fresh.eq_ofMemory {size : Nat} {m : Machine} (h : Fresh size m) :
    ∃ memory, m = .ofMemory memory ∧ memory.size = size := by
  cases h with
  | blank => exact ⟨.blank, rfl, Array.size_replicate⟩
  | ofSize h =>
    obtain ⟨memory, hm, h⟩ := eq_ok_of_bind_eq_ok h
    cases h
    rw [Memory.ofSize] at hm
    split at hm
    · cases hm
    · cases hm
      exact ⟨_, rfl, Array.size_replicate⟩

/-- A command exchanges the memory for one of the same size, or it goes through an execution. -/
inductive Machine.Performed (m : Machine) : List Step → Machine → Prop
  | exchanged {memory : Memory} (same : memory.size = m.memory.size) :
      Performed m [] { m with memory }
  | executed {history : History} {next : Machine} (h : Execution m history next) :
      Performed m history.steps next

theorem Machine.Performed.refl (m : Machine) : m.Performed [] m :=
  .executed (.refl m)

theorem Machine.machine_load (m : Machine) (image : Image) (c : Console) :
    (m.load image c).machine = { m with memory := (m.memory.load image).2 } := by
  rw [load]
  obtain ⟨_ | _, memory⟩ := m.memory.load image <;> rfl

theorem Machine.performed_step (m : Machine) (c : Console) :
    m.Performed (m.completedBy (.step c)) (m.step c).machine := by
  have hs := m.stepped c
  rw [completedBy]
  generalize m.step c = turn at hs
  cases hs with
  | idle halted =>
    rw [halted]
    exact .refl m
  | failed running | refused running =>
    rw [running]
    exact .refl m
  | done running ok fits =>
    rw [running]
    exact .executed (.cycle running ok (.refl _))

theorem Machine.performed (m : Machine) (command : Command) :
    m.Performed (m.completedBy command) (m.perform command) := by
  cases command with
  | load image console =>
    rw [completedBy, perform, machine_load]
    exact .exchanged (m.memory.size_load image)
  | poke address value => exact .exchanged (m.memory.size_write address value)
  | step console => exact m.performed_step console
  | run console =>
    obtain ⟨history, he, hdone⟩ := m.exists_execution_run console
    rw [completedBy, hdone]
    exact .executed he

end LS8
