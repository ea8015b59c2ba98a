import LS8.Proofs.Resumption
import LS8.Proofs.WrittenNumerals

/-! Runs of machines that differ in what their registers hold. The sweep does not look at registers,
and what each cycle reports is told by its item and its address. So the registers decide which
numbers are printed, and nothing else. -/

namespace LS8

theorem feed_not_mem_toDigits (n : Nat) : 0x0A ∉ (Nat.toDigits 10 n).map Char.toUInt8 := fun mem =>
  absurd (bounds_of_mem_decimal mem).1 (by decide)

theorem count_feed_outputLine (value : UInt8) : (outputLine value).count 0x0A = 1 := by
  rw [outputLine, List.count_append, List.count_eq_zero.mpr (feed_not_mem_toDigits _)]
  rfl

def printCount (steps : List Step) : Nat := steps.count (.executed .print)

theorem Machine.steps_itemHistory_of_pc {m n : Machine} (pc : n.pc = m.pc) (items : List Item) :
    (n.itemHistory items).steps = (m.itemHistory items).steps := by
  induction items generalizing m n with
  | nil => rfl
  | cons i items ih =>
    have hi : (i.effect n).step = (i.effect m).step := by
      cases i <;> simp only [Item.effect, Effect.step, pc]
    have next : (i.next n).pc = (i.next m).pc := congrArg (· + i.size) pc
    show (i.effect n).step :: History.steps _ = (i.effect m).step :: History.steps _
    rw [hi, ih next]

theorem Machine.steps_sweptHistory_of_pc {m n : Machine} (pc : n.pc = m.pc) (s : Sweep) :
    (n.sweptHistory s).steps = (m.sweptHistory s).steps := by
  have hi := steps_itemHistory_of_pc pc s.items
  rw [sweptHistory, sweptHistory]
  cases s.ending with
  | halt => rw [History.steps_append, History.steps_append, hi]; rfl
  | missing | badRegister => exact hi

/-- Every print shows one line, and nothing else is shown. -/
theorem Machine.count_feed_itemHistory (m : Machine) (items : List Item) :
    (m.itemHistory items).output.count 0x0A = printCount (m.itemHistory items).steps := by
  induction items generalizing m with
  | nil => rfl
  | cons i items ih =>
    have hi : (i.effect m).output.count 0x0A = printCount [(i.effect m).step] := by
      cases i with
      | print register => exact count_feed_outputLine _
      | unknown | loadImmediate | multiply => rfl
    calc (m.itemHistory (i :: items)).output.count 0x0A
        = (i.effect m).output.count 0x0A + ((i.next m).itemHistory items).output.count 0x0A :=
          List.count_append
      _ = printCount [(i.effect m).step] + printCount ((i.next m).itemHistory items).steps := by
          rw [hi, ih]
      _ = printCount (m.itemHistory (i :: items)).steps := List.count_append.symm

theorem Machine.count_feed_sweptHistory (m : Machine) (s : Sweep) :
    (m.sweptHistory s).output.count 0x0A = printCount (m.sweptHistory s).steps := by
  have hi := m.count_feed_itemHistory s.items
  rw [sweptHistory]
  cases s.ending with
  | halt =>
    rw [History.output_append, History.steps_append, List.count_append, printCount,
      List.count_append, hi]
    rfl
  | missing | badRegister => exact hi

section Unlimited

variable {m : Machine} {c : Console}

theorem Machine.completed_eq_sweep (running : m.status = .running)
    (unlimited : c.sink.room = none) :
    m.completed c = (m.sweptHistory (sweep (m.memory.cellsFrom m.pc))).steps := by
  obtain ⟨he, hs⟩ := execution_swept running (sweep_cuts _)
  exact he.completed_eq hs (Sink.fits_of_unlimited unlimited _)

theorem Machine.count_feed_run (running : m.status = .running) (unlimited : c.sink.room = none) :
    (Call.mk m c).output.count 0x0A = printCount (m.completed c) := by
  obtain ⟨he, hs⟩ := execution_swept running (sweep_cuts _)
  have fits := Sink.fits_of_unlimited unlimited
  have ho : (Call.mk m c).output = _ := Call.output_eq (he.accepted_run hs (fits _))
  rw [ho, he.completed_eq hs (fits _), m.count_feed_sweptHistory]

end Unlimited

/-- Machines that differ in their registers at most run alike: with the same result, to the same
program counter and status, in the same steps. So they print equally often, and each shows as many
lines as it prints. -/
theorem Machine.run_of_any_registers {m n : Machine} {c d : Console} (running : m.status = .running)
    (running' : n.status = .running) (memory : n.memory = m.memory) (pc : n.pc = m.pc)
    (unlimited : c.sink.room = none) (unlimited' : d.sink.room = none) :
    (n.run d).result = (m.run c).result ∧ (n.run d).machine.pc = (m.run c).machine.pc ∧
      (n.run d).machine.status = (m.run c).machine.status ∧ n.completed d = m.completed c ∧
      printCount (n.completed d) = printCount (m.completed c) ∧
      (Call.mk m c).output.count 0x0A = printCount (m.completed c) ∧
      (Call.mk n d).output.count 0x0A = printCount (n.completed d) := by
  have cells : n.memory.cellsFrom n.pc = m.memory.cellsFrom m.pc := by rw [memory, pc]
  obtain ⟨hr, hm, -⟩ := run_of_cuts running (sweep_cuts _) (Sink.fits_of_unlimited unlimited _)
  obtain ⟨hr', hm', -⟩ := run_of_cuts running' (sweep_cuts _) (Sink.fits_of_unlimited unlimited' _)
  have steps : n.completed d = m.completed c := by
    rw [completed_eq_sweep running' unlimited', completed_eq_sweep running unlimited, cells,
      steps_sweptHistory_of_pc pc]
  refine ⟨by rw [hr', hr, cells, memory, pc], ?_, ?_, steps, by rw [steps],
    count_feed_run running unlimited, count_feed_run running' unlimited'⟩
  · rw [hm', hm, swept_eq, swept_eq, cells, pc]
  · rw [hm', hm, swept_eq, swept_eq, cells]

/-- Products that differ, a byte that is no opcode, and a register that does not exist. -/
theorem Machine.run_of_any_registers_products :
    let memory : Memory := ⟨#[0xA2, 0, 1, 0x47, 0, 0xFF, 0x47, 1, 0x47, 9]⟩
    let m : Machine := ⟨.zero, 0, memory, .running⟩
    let n : Machine := ⟨⟨#v[200, 3, 0, 0, 0, 0, 0, 0]⟩, 0, memory, .running⟩
    let c : Console := ⟨.unlimited, .empty .off⟩
    m.status = .running ∧ n.status = .running ∧ c.sink.room = none ∧
      (m.run c).result = .error (.registerOutOfBounds 9) ∧ (n.run c).result = (m.run c).result ∧
      (n.run c).machine.pc = (m.run c).machine.pc ∧ (m.run c).machine.pc = 8 ∧
      n.completed c = m.completed c ∧ printCount (m.completed c) = 2 ∧
      (Call.mk m c).output = [0x30, 0x0A, 0x30, 0x0A] ∧
      (Call.mk n c).output = [0x38, 0x38, 0x0A, 0x33, 0x0A] := by
  intro memory m n c
  obtain ⟨hr, hp, -, hs, -⟩ := @run_of_any_registers m n c c rfl rfl rfl rfl rfl rfl
  refine ⟨rfl, rfl, rfl, ?_, hr, hp, ?_, hs, ?_, ?_, ?_⟩
  all_goals decide +kernel

end LS8
