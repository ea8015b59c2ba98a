import LS8.Proofs.Resumption

/-! Runs in another place. A run that halts has looked at no cell behind the halt, and at none
before the one it began with. So the cells from there to the halt make up a program that runs alike
wherever they stand, in whatever memory. -/

namespace LS8

/-- The cells from an address on begin with the items and a halt. -/
def Memory.HaltsBehind (m : Memory) (address : Nat) (items : List Item) : Prop :=
  ∃ byte, Operation.ofByte? byte = some .halt ∧
    items.flatMap Item.cells ++ [byte] <+: m.cellsFrom address

section Cells

variable {m n : Memory} {here there : Nat}

theorem Memory.front_of_same {front : List UInt8} (h : front <+: m.cellsFrom here)
    (same : ∀ offset < front.length, n.peek? (there + offset) = m.peek? (here + offset)) :
    front <+: n.cellsFrom there := by
  refine List.prefix_iff_eq_take.mpr (List.ext_getElem? fun offset => ?_)
  rw [List.getElem?_take]
  by_cases lt : offset < front.length
  · obtain ⟨rest, hr⟩ := h
    rw [if_pos lt, ← peek?_add, same offset lt, peek?_add, ← hr, List.getElem?_append_left lt]
  · rw [if_neg lt, List.getElem?_eq_none (Nat.le_of_not_lt lt)]

theorem Memory.HaltsBehind.of_same {items : List Item} (h : m.HaltsBehind here items)
    (same : ∀ offset ≤ (items.flatMap Item.cells).length,
      n.peek? (there + offset) = m.peek? (here + offset)) : n.HaltsBehind there items := by
  obtain ⟨byte, hb, front⟩ := h
  refine ⟨byte, hb, front_of_same front fun offset lt => same offset ?_⟩
  rw [List.length_append, List.length_singleton] at lt
  exact Nat.le_of_lt_succ lt

theorem Memory.HaltsBehind.cuts {items : List Item} (h : m.HaltsBehind here items) :
    (Sweep.mk items .halt).Cuts (m.cellsFrom here) := by
  obtain ⟨byte, hb, rest, hr⟩ := h
  exact ⟨byte :: rest, by rw [← hr, List.append_assoc]; rfl, .halt hb⟩

theorem Sweep.Cuts.haltsBehind {items : List Item}
    (h : (Sweep.mk items .halt).Cuts (m.cellsFrom here)) : m.HaltsBehind here items := by
  obtain ⟨rest, hr, hs⟩ := h
  cases hs with
  | @halt byte behind hb => exact ⟨byte, hb, behind, by rw [hr, List.append_assoc]; rfl⟩

theorem Memory.haltsBehind_append {front rest : List Item} :
    m.HaltsBehind here (front ++ rest) ↔
      front.flatMap Item.cells <+: m.cellsFrom here ∧
        m.HaltsBehind (here + (front.flatMap Item.cells).length) rest := by
  simp only [HaltsBehind, List.flatMap_append, List.append_assoc]
  constructor
  · rintro ⟨byte, hb, tail, ht⟩
    rw [List.append_assoc] at ht
    exact ⟨⟨_, ht⟩, byte, hb, tail, (cellsFrom_add ht.symm).symm⟩
  · rintro ⟨⟨tail, ht⟩, byte, hb, behind⟩
    rw [cellsFrom_add ht.symm] at behind
    exact ⟨byte, hb, by rwa [← ht, List.prefix_append_right_inj]⟩

theorem Memory.haltsBehind_cons {i : Item} {items : List Item} :
    m.HaltsBehind here (i :: items) ↔
      i.cells <+: m.cellsFrom here ∧ m.HaltsBehind (here + i.size) items := by
  rw [← List.singleton_append, haltsBehind_append, List.flatMap_singleton]
  rfl

end Cells

section Run

variable {m : Machine} {c : Console} {items : List Item}

theorem Machine.run_of_haltsBehind (running : m.status = .running)
    (h : m.memory.HaltsBehind m.pc items) (fits : c.sink.Fits (carryOut items m.registers).2) :
    (m.run c).result = .ok ⟨items.length + 1, (skippedAt m.pc items).toArray⟩ ∧
      (m.run c).machine = ⟨(carryOut items m.registers).1,
        m.pc + (items.flatMap Item.cells).length, m.memory, .halted⟩ ∧
      (m.run c).console.sink = c.sink.offer (carryOut items m.registers).2 := by
  obtain ⟨hr, hm, ho⟩ := run_of_cuts running h.cuts fits
  exact ⟨hr, hm.trans (m.swept_eq _), ho⟩

/-- A run that succeeds has come to a halt behind some items and was refused nothing. -/
theorem Machine.haltsBehind_of_run {summary : Summary} (running : m.status = .running)
    (ok : (m.run c).result = .ok summary) :
    ∃ items, m.memory.HaltsBehind m.pc items ∧ c.sink.Fits (carryOut items m.registers).2 := by
  let s := sweep (m.memory.cellsFrom m.pc)
  have cuts : s.Cuts (m.memory.cellsFrom m.pc) := sweep_cuts _
  obtain ⟨he, hs⟩ := execution_swept running cuts
  have fits : c.sink.Fits (m.sweptHistory s).output := Decidable.byContradiction fun refused => by
    rw [(he.result_eq_outputClosed_iff hs).mpr refused] at ok
    cases ok
  rw [he.run_eq hs fits] at ok
  rw [m.output_sweptHistory] at fits
  obtain ⟨items, ending⟩ := s
  cases ending with
  | halt => exact ⟨items, cuts.haltsBehind, fits⟩
  | missing | badRegister => cases ok

end Run

theorem placed_eq_map (address : Nat) (items : List Item) :
    placed address items = (placed 0 items).map fun (offset, i) => (address + offset, i) := by
  induction items generalizing address with
  | nil => rfl
  | cons i items ih =>
    rw [placed, placed, ih (address + i.size), ih (0 + i.size), List.map_cons, List.map_map]
    simp [Function.comp_def, Nat.add_assoc]

theorem skippedAt_eq_map (address : Nat) (items : List Item) :
    skippedAt address items =
      (skippedAt 0 items).map fun (offset, byte) => (address + offset, byte) := by
  rw [skippedAt, placed_eq_map, skippedAt, List.filterMap_map, List.map_filterMap]
  refine congrArg (List.filterMap · _) (funext ?_)
  rintro ⟨offset, i⟩
  cases i <;> rfl

/-- A run that halts, and another one over the same cells in another place: as many cycles, the same
output and registers, and the same bytes skipped at the same distance from the start. What the other
cells of the memories hold, and how many there are, makes no difference. -/
theorem Machine.run_relocated {m n : Machine} {c d : Console} {summary : Summary}
    (running : m.status = .running) (running' : n.status = .running)
    (registers : n.registers = m.registers) (sink : d.sink = c.sink)
    (ok : (m.run c).result = .ok summary)
    (same : ∀ offset ≤ (m.run c).machine.pc - m.pc,
      n.memory.peek? (n.pc + offset) = m.memory.peek? (m.pc + offset)) :
    m.pc ≤ (m.run c).machine.pc ∧
      (n.run d).machine = ⟨(m.run c).machine.registers, n.pc + ((m.run c).machine.pc - m.pc),
        n.memory, .halted⟩ ∧
      (n.run d).console.sink = (m.run c).console.sink ∧
      ∃ skips : List (Nat × UInt8),
        summary.skipped = (skips.map fun (offset, byte) => (m.pc + offset, byte)).toArray ∧
        (n.run d).result = .ok ⟨summary.cycles,
          (skips.map fun (offset, byte) => (n.pc + offset, byte)).toArray⟩ := by
  obtain ⟨items, halts, fits⟩ := haltsBehind_of_run running ok
  obtain ⟨hr, hm, hs⟩ := run_of_haltsBehind running halts fits
  have hp : (m.run c).machine.pc = m.pc + (items.flatMap Item.cells).length := by rw [hm]
  have distance : (m.run c).machine.pc - m.pc = (items.flatMap Item.cells).length := by
    rw [hp, Nat.add_sub_cancel_left]
  rw [distance] at same ⊢
  have fits' : d.sink.Fits (carryOut items n.registers).2 := by rwa [registers, sink]
  obtain ⟨hr', hm', hs'⟩ := run_of_haltsBehind running' (halts.of_same same) fits'
  cases ok.symm.trans hr
  refine ⟨by rw [hp]; exact Nat.le_add_right _ _, ?_, ?_, skippedAt 0 items, ?_, ?_⟩
  · rw [hm', hm, registers]
  · rw [hs', hs, registers, sink]
  · rw [← skippedAt_eq_map]
  · rw [hr', ← skippedAt_eq_map]

/-- A sink with just enough room, bytes that are no opcodes among the instructions, and a second
memory that is the smaller one and ends with the halt. -/
theorem Machine.run_relocated_to_front :
    let front : Memory := ⟨#[0xFF, 0x82, 0, 6, 0xA2, 0, 0, 0x47, 0, 0, 0x01]⟩
    let behind : Memory := ⟨#[0x47, 9, 0xFF, 0x82, 0, 6, 0xA2, 0, 0, 0x47, 0, 0, 0x01, 0x47, 9]⟩
    let m : Machine := ⟨.zero, 2, behind, .running⟩
    let n : Machine := ⟨.zero, 0, front, .running⟩
    let c : Console := ⟨.ofRoom 3, .empty .off⟩
    m.status = .running ∧ n.status = .running ∧
      (m.run c).result = .ok ⟨6, #[(2, 0xFF), (11, 0)]⟩ ∧
      (n.run c).result = .ok ⟨6, #[(0, 0xFF), (9, 0)]⟩ ∧
      (m.run c).machine.pc = 12 ∧ (n.run c).machine.pc = 10 ∧
      (∀ offset ≤ 10, front.peek? (0 + offset) = behind.peek? (2 + offset)) ∧
      (m.run c).console.sink.accepted.toList = [0x33, 0x36, 0x0A] ∧
      (n.run c).console.sink = (m.run c).console.sink := by
  intro front behind m n c
  have ok : (m.run c).result = .ok ⟨6, #[(2, 0xFF), (11, 0)]⟩ := by decide +kernel
  have halt : (m.run c).machine.pc = 12 := by decide +kernel
  have same : ∀ offset ≤ 10, front.peek? (0 + offset) = behind.peek? (2 + offset) := by decide
  have distance : (m.run c).machine.pc - m.pc = 10 := by
    rw [halt]
    rfl
  obtain ⟨-, hm, hs, -⟩ := @run_relocated m n c c _ rfl rfl rfl rfl ok (distance ▸ same)
  refine ⟨rfl, rfl, ok, ?_, halt, ?_, same, ?_, hs⟩
  · decide +kernel
  · rw [hm, distance]
  · decide +kernel

end LS8
