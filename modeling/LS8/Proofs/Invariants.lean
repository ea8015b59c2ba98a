import LS8.Proofs.Lifetime
import Mathlib.Algebra.Order.Ring.Nat

/-! What no command changes. The size of the memory stays, the program counter never goes back and
never leaves the memory, and a machine that has halted is left as it is but for its memory. -/

namespace LS8

theorem Machine.pc_le_of_cycle {m next : Machine} {effect : Effect}
    (h : m.cycle = .ok (effect, next)) : m.pc ≤ next.pc := by
  obtain ⟨i, -, hc⟩ := carriedOut_of_cycle h
  cases hc with
  | halt => exact Nat.le_refl _
  | unknown | print | loadImmediate | arithmetic => exact Nat.le_add_right _ _

theorem Machine.pc_lt_size_of_cycle {m next : Machine} {effect : Effect}
    (running : m.status = .running) (h : m.cycle = .ok (effect, next))
    (halted : next.status = .halted) : next.pc < next.memory.size := by
  obtain ⟨i, hf, hc⟩ := carriedOut_of_cycle h
  cases hc with
  | halt =>
    -- a halt leaves the program counter on its own opcode
    exact Memory.lt_size_of_fetch hf
  | unknown | print | loadImmediate | arithmetic => cases running.symm.trans halted

section Execution

variable {m last : Machine} {history : History}

theorem Execution.pc_le (h : Execution m history last) : m.pc ≤ last.pc := by
  induction h with
  | refl => exact Nat.le_refl _
  | cycle _ ok _ ih => exact Nat.le_trans (Machine.pc_le_of_cycle ok) ih

theorem Execution.pc_lt_size (h : Execution m history last)
    (inside : m.status = .halted → m.pc < m.memory.size) (halted : last.status = .halted) :
    last.pc < last.memory.size := by
  induction h with
  | refl => exact inside halted
  | cycle running ok _ ih => exact ih (Machine.pc_lt_size_of_cycle running ok) halted

theorem Machine.Stops.eq_of_execution {fault? : Option Fault} (stops : m.Stops fault?)
    (h : Execution m history last) : last = m := by
  cases h with
  | refl => rfl
  | cycle running ok _ =>
    cases stops with
    | halted halted => cases running.symm.trans halted
    | failing _ error => cases error.symm.trans ok

end Execution

section Performed

variable {m next : Machine} {steps : List Step}

theorem Machine.Performed.pc_le (h : m.Performed steps next) : m.pc ≤ next.pc := by
  cases h with
  | exchanged => exact Nat.le_refl _
  | executed he => exact he.pc_le

theorem Machine.Performed.pc_lt_size (h : m.Performed steps next)
    (inside : m.status = .halted → m.pc < m.memory.size) (halted : next.status = .halted) :
    next.pc < next.memory.size := by
  cases h with
  | exchanged same => exact same ▸ inside halted
  | executed he => exact he.pc_lt_size inside halted

theorem Machine.Performed.of_halted (h : m.Performed steps next) (halted : m.status = .halted) :
    ∃ memory, next = { m with memory } := by
  cases h with
  | exchanged => exact ⟨_, rfl⟩
  | executed he => exact ⟨m.memory, (Stops.halted halted).eq_of_execution he⟩

end Performed

theorem Machine.performAll_append (m : Machine) (before after : List Command) :
    m.performAll (before ++ after) = (m.performAll before).performAll after :=
  List.foldl_append

theorem Machine.pc_le_performAll (m : Machine) (commands : List Command) :
    m.pc ≤ (m.performAll commands).pc :=
  List.foldlRecOn commands perform (Nat.le_refl _) fun n hle command _ =>
    Nat.le_trans hle (n.performed command).pc_le

theorem Machine.pc_lt_size_performAll {m : Machine}
    (inside : m.status = .halted → m.pc < m.memory.size) (commands : List Command) :
    (m.performAll commands).status = .halted →
      (m.performAll commands).pc < (m.performAll commands).memory.size :=
  List.foldlRecOn (motive := fun n => n.status = .halted → n.pc < n.memory.size)
    commands perform inside fun n hn command _ => (n.performed command).pc_lt_size hn

theorem Machine.performAll_of_halted {m : Machine} (halted : m.status = .halted)
    (commands : List Command) : ∃ memory, m.performAll commands = { m with memory } := by
  refine List.foldlRecOn (motive := fun n => ∃ memory, n = { m with memory })
    commands perform ⟨m.memory, rfl⟩ fun n hn command _ => ?_
  obtain ⟨memory, rfl⟩ := hn
  exact (Machine.performed _ command).of_halted halted

theorem Machine.perform_load (m : Machine) (image : Image) (c : Console) :
    ∃ memory, m.perform (.load image c) = { m with memory } :=
  ⟨_, m.machine_load image c⟩

theorem Machine.perform_poke (m : Machine) (address : Nat) (value : UInt8) :
    ∃ memory, m.perform (.poke address value) = { m with memory } :=
  ⟨_, rfl⟩

theorem Machine.memory_step (m : Machine) (c : Console) : (m.step c).machine.memory = m.memory := by
  have hs := m.stepped c
  generalize m.step c = turn at hs
  cases hs with
  | idle | failed | refused => rfl
  | done _ ok => exact memory_eq_of_cycle ok

theorem Machine.memory_run (m : Machine) (c : Console) : (m.run c).machine.memory = m.memory := by
  obtain ⟨history, he, -⟩ := m.exists_execution_run c
  exact he.memory_eq

/-- What holds of a machine after any commands, also if some of them failed, and what any later ones
leave as it is. If the memory is no larger than an allocation can be, no sum that a cycle or a snapshot
forms from the program counter leaves the range of a 64-bit word; cycles begin, also within a run, at
the ends of executions. -/
theorem Machine.invariant {size : Nat} {start : Machine} (made : Fresh size start)
    (commands : List Command) :
    let m := start.performAll commands
    m.memory.size = size ∧ m.pc ≤ size ∧ (m.status = .halted → m.pc < size) ∧
      (∀ later, let n := start.performAll (commands ++ later)
        m.pc ≤ n.pc ∧ (m.status = .halted →
          n.status = .halted ∧ n.pc = m.pc ∧ n.registers = m.registers)) ∧
      (∀ image console, ∃ memory, m.perform (.load image console) = { m with memory }) ∧
      (∀ address value, ∃ memory, m.perform (.poke address value) = { m with memory }) ∧
      (∀ console, (m.perform (.step console)).memory = m.memory ∧
        (m.perform (.run console)).memory = m.memory) ∧
      (size ≤ 2 ^ 63 - 1 → ∀ history n, Execution m history n →
        (∀ offset ≤ 2, n.pc + offset ≤ 2 ^ 64 - 1) ∧
          ∀ operation : Operation, n.pc + 1 + operation.operandCount ≤ 2 ^ 64 - 1) := by
  intro m
  obtain ⟨memory, rfl, rfl⟩ := made.eq_ofMemory
  have hs : m.memory.size = memory.size := memory_size_performAll _ commands
  have hp : m.pc ≤ m.memory.size := pc_le_size_performAll (Nat.zero_le _) commands
  have hh : m.status = .halted → m.pc < m.memory.size :=
    pc_lt_size_performAll (fun halted => by cases halted) commands
  refine ⟨hs, hs ▸ hp, hs ▸ hh, fun later => ?_, m.perform_load, m.perform_poke,
    fun console => ⟨m.memory_step console, m.memory_run console⟩, fun small history n he => ?_⟩
  · rw [performAll_append]
    refine ⟨m.pc_le_performAll later, fun halted => ?_⟩
    obtain ⟨memory, hn⟩ := performAll_of_halted halted later
    rw [hn]
    exact ⟨halted, rfl, rfl⟩
  · have hn : n.pc ≤ n.memory.size := he.pc_le_size hp
    rw [he.memory_eq, hs] at hn
    refine ⟨fun offset hle => by omega, fun operation => ?_⟩
    have hc : operation.operandCount ≤ 2 := by cases operation <;> decide
    omega

/-- A print that is refused its output, a cell that does not exist, a halt, and then an attempt to go
on behind it. -/
theorem Machine.invariant_halted_early :
    let free : Console := ⟨.unlimited, .empty .off⟩
    let commands : List Command :=
      [.poke 0 0x47, .poke 2 0x01, .run ⟨.ofRoom 0, .empty .off⟩, .poke 256 1, .run free]
    let later : List Command := [.poke 2 0xFF, .step free, .run free]
    let m := Machine.blank.performAll commands
    let n := Machine.blank.performAll (commands ++ later)
    Fresh minimumMemorySize .blank ∧ m.status = .halted ∧ m.pc = 2 ∧
      n.status = .halted ∧ n.pc = m.pc ∧ n.memory.peek? 2 = some 0xFF ∧
      m.pc < minimumMemorySize ∧ m.pc + 2 ≤ 2 ^ 64 - 1 := by
  intro free commands later m n
  obtain ⟨-, -, below, frozen, -, -, -, sums⟩ := invariant .blank commands
  have halted : m.status = .halted := by decide +kernel
  obtain ⟨hs, hp, -⟩ := (frozen later).2 halted
  have hsum := (sums (by decide) [] m (.refl m)).1 2 (Nat.le_refl 2)
  refine ⟨.blank, halted, ?_, hs, hp, ?_, below halted, hsum⟩
  all_goals decide +kernel

end LS8
