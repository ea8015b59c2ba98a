import LS8.Proofs.Relocation
import LS8.Proofs.StepFailure

/-! A byte that is no opcode, put in front of an instruction. The sweep makes an item of it and goes on
with the next one, so all that changes is where the rest of the program stands. -/

namespace LS8

/-- What an execution has passed on the way to a halt are the first of the items before the halt. -/
theorem Execution.exists_boundary {m last : Machine} {history : History} {items : List Item}
    (h : Execution m history last) (halts : m.memory.HaltsBehind m.pc items) :
    ∃ front rest, items = front ++ rest ∧
      last.pc = m.pc + (front.flatMap Item.cells).length := by
  induction h generalizing items with
  | refl => exact ⟨[], items, rfl, rfl⟩
  | @cycle m next last effect history running ok after ih =>
    cases items with
    | nil =>
      obtain ⟨byte, hb, tail, ht⟩ := halts
      cases ok.symm.trans (Machine.cycle_halt ht.symm hb)
      -- the halt leaves the program counter in place, and no cycle follows it
      cases after with
      | refl => exact ⟨[], [], rfl, rfl⟩
      | cycle running' => cases running'
    | cons i items =>
      obtain ⟨⟨tail, ht⟩, behind⟩ := Memory.haltsBehind_cons.mp halts
      cases ok.symm.trans (Machine.cycle_item ht.symm)
      obtain ⟨front, rest, rfl, hpc⟩ := ih behind
      refine ⟨i :: front, rest, rfl, ?_⟩
      rw [hpc, List.flatMap_cons, List.length_append, ← Nat.add_assoc]
      rfl

section Unknown

variable {byte : UInt8} (noOpcode : Operation.ofByte? byte = none) (front rest : List Item)

theorem carryOut_insert_unknown (r : Registers) :
    carryOut (front ++ .unknown byte noOpcode :: rest) r = carryOut (front ++ rest) r := by
  rw [carryOut_append, carryOut_append, carryOut_cons]
  rfl

theorem skippedAt_insert_unknown (address : Nat) :
    let boundary := address + (front.flatMap Item.cells).length
    let skipped := skippedAt address (front ++ rest)
    skippedAt address (front ++ .unknown byte noOpcode :: rest) =
      skipped.filter (·.1 < boundary) ++ (boundary, byte) ::
        (skipped.filter (boundary ≤ ·.1)).map fun (address, byte) => (address + 1, byte) := by
  intro boundary skipped
  have before : ∀ p ∈ skippedAt address front, p.1 < boundary := fun p hp =>
    (bounds_of_mem_skippedAt hp).2
  have behind : ∀ p ∈ skippedAt boundary rest, boundary ≤ p.1 := fun p hp =>
    (bounds_of_mem_skippedAt hp).1
  have hs : skipped = skippedAt address front ++ skippedAt boundary rest :=
    skippedAt_append address front rest
  have low : skipped.filter (·.1 < boundary) = skippedAt address front := by
    rw [hs, List.filter_append, List.filter_eq_self.mpr (by simpa using before),
      List.filter_eq_nil_iff.mpr (by simpa using behind), List.append_nil]
  have high : skipped.filter (boundary ≤ ·.1) = skippedAt boundary rest := by
    rw [hs, List.filter_append, List.filter_eq_nil_iff.mpr (by simpa using before),
      List.filter_eq_self.mpr (by simpa using behind), List.nil_append]
  have shifted : skippedAt (boundary + 1) rest =
      (skippedAt boundary rest).map fun (address, byte) => (address + 1, byte) := by
    rw [skippedAt_eq_map, skippedAt_eq_map boundary, List.map_map]
    simp [Function.comp_def, Nat.add_right_comm]
  rw [low, high, ← shifted, skippedAt_append]
  rfl

end Unknown

theorem Memory.HaltsBehind.insert_unknown {m n : Memory} {address : Nat} {byte : UInt8}
    {front rest : List Item} (noOpcode : Operation.ofByte? byte = none)
    (halts : m.HaltsBehind address (front ++ rest)) :
    let boundary := address + (front.flatMap Item.cells).length
    (∀ a, address ≤ a → a < boundary → n.peek? a = m.peek? a) →
    n.peek? boundary = some byte →
    (∀ a, boundary ≤ a → a ≤ boundary + (rest.flatMap Item.cells).length →
      n.peek? (a + 1) = m.peek? a) →
    n.HaltsBehind address (front ++ .unknown byte noOpcode :: rest) := by
  intro boundary before inserted behind
  obtain ⟨hfront, hrest⟩ := haltsBehind_append.mp halts
  have shifted : n.HaltsBehind (boundary + 1) rest := hrest.of_same fun offset le => by
    rw [Nat.add_right_comm]
    exact behind _ (Nat.le_add_right _ _) (Nat.add_le_add_left le _)
  have one : [byte] <+: n.cellsFrom boundary :=
    ⟨_, (cellsFrom_of_peek? inserted).symm⟩
  refine haltsBehind_append.mpr ⟨front_of_same hfront fun offset lt => ?_, ?_⟩
  · exact before _ (Nat.le_add_right _ _) (Nat.add_lt_add_left lt _)
  · exact haltsBehind_cons.mpr ⟨one, shifted⟩

/-- A run that halts, and one over the same cells with a byte that is no opcode in front of any place
where the first run has stood: it skips that byte and else does the same, with the cells behind the
byte one place further on. -/
theorem Machine.run_with_unknown_inserted {m n stop : Machine} {c d : Console} {summary : Summary}
    {history : History} {byte : UInt8} (running : m.status = .running)
    (running' : n.status = .running) (registers : n.registers = m.registers) (pc : n.pc = m.pc)
    (sink : d.sink = c.sink) (ok : (m.run c).result = .ok summary)
    (reached : Execution m history stop) (noOpcode : Operation.ofByte? byte = none)
    (before : ∀ address, m.pc ≤ address → address < stop.pc →
      n.memory.peek? address = m.memory.peek? address)
    (inserted : n.memory.peek? stop.pc = some byte)
    (behind : ∀ address, stop.pc ≤ address → address ≤ (m.run c).machine.pc →
      n.memory.peek? (address + 1) = m.memory.peek? address) :
    let skipped := summary.skipped.toList
    (n.run d).result = .ok ⟨summary.cycles + 1,
        (skipped.filter (·.1 < stop.pc) ++ (stop.pc, byte) ::
          (skipped.filter (stop.pc ≤ ·.1)).map fun (address, byte) => (address + 1, byte)).toArray⟩ ∧
      (n.run d).machine = ⟨(m.run c).machine.registers, (m.run c).machine.pc + 1, n.memory,
        .halted⟩ ∧
      (n.run d).console.sink = (m.run c).console.sink := by
  intro skipped
  obtain ⟨items, halts, fits⟩ := haltsBehind_of_run running ok
  obtain ⟨hr, hm, hs⟩ := run_of_haltsBehind running halts fits
  obtain ⟨front, rest, rfl, hstop⟩ := reached.exists_boundary halts
  have hpc : (m.run c).machine.pc = stop.pc + (rest.flatMap Item.cells).length := by
    rw [hm, hstop, List.flatMap_append, List.length_append, ← Nat.add_assoc]
  rw [hstop] at before inserted behind hpc ⊢
  rw [hpc] at behind
  have halts' := halts.insert_unknown noOpcode before inserted behind
  rw [← pc] at halts'
  have fits' : d.sink.Fits
      (carryOut (front ++ .unknown byte noOpcode :: rest) n.registers).2 := by
    rwa [carryOut_insert_unknown, registers, sink]
  obtain ⟨hr', hm', hs'⟩ := run_of_haltsBehind running' halts' fits'
  cases ok.symm.trans hr
  refine ⟨?_, ?_, ?_⟩
  · rw [hr', pc, skippedAt_insert_unknown]
    simp [skipped, Nat.add_assoc]
  · rw [hm', hpc, hm, carryOut_insert_unknown, registers, pc]
    simp [Item.cells, Nat.add_assoc]
  · rw [hs', hs, carryOut_insert_unknown, registers, sink]

/-- A byte that is no opcode in front of a print, between two others. -/
theorem Machine.run_with_unknown_before_print :
    let short : Memory := ⟨#[0xFF, 0x82, 0, 6, 0x47, 0, 0, 0x01]⟩
    let long : Memory := ⟨#[0xFF, 0x82, 0, 6, 0x05, 0x47, 0, 0, 0x01, 0x47]⟩
    let m : Machine := ⟨.zero, 0, short, .running⟩
    let n : Machine := ⟨.zero, 0, long, .running⟩
    let stop : Machine := ⟨⟨#v[6, 0, 0, 0, 0, 0, 0, 0]⟩, 4, short, .running⟩
    let history : History := [(m, .skipped 0 0xFF), ({ m with pc := 1 }, .computed .loadImmediate)]
    let c : Console := ⟨.unlimited, .empty .off⟩
    (m.run c).result = .ok ⟨5, #[(0, 0xFF), (6, 0)]⟩ ∧ Execution m history stop ∧
      (m.run c).machine.pc = 7 ∧ (∀ a < 4, long.peek? a = short.peek? a) ∧
      long.peek? 4 = some 0x05 ∧
      (∀ a ≤ 7, 4 ≤ a → long.peek? (a + 1) = short.peek? a) ∧
      (n.run c).result = .ok ⟨6, #[(0, 0xFF), (4, 0x05), (7, 0)]⟩ ∧
      (n.run c).machine.pc = 8 ∧
      (n.run c).console.sink.accepted.toList = [0x36, 0x0A] := by
  intro short long m n stop history c
  have ok : (m.run c).result = .ok ⟨5, #[(0, 0xFF), (6, 0)]⟩ := by decide +kernel
  have halt : (m.run c).machine.pc = 7 := by decide +kernel
  have shown : (m.run c).console.sink.accepted.toList = [0x36, 0x0A] := by decide +kernel
  have reached : Execution m history stop := .cycle rfl rfl (.cycle rfl rfl (.refl stop))
  have before : ∀ a < 4, long.peek? a = short.peek? a := by decide
  have behind : ∀ a ≤ 7, 4 ≤ a → long.peek? (a + 1) = short.peek? a := by decide
  obtain ⟨hr, hm, hs⟩ := @run_with_unknown_inserted m n stop c c _ _ _ rfl rfl rfl rfl rfl ok
    reached rfl (fun a _ lt => before a lt) rfl (fun a ge le => behind a (halt ▸ le) ge)
  refine ⟨ok, reached, halt, before, rfl, behind, hr, ?_, ?_⟩
  · rw [hm, halt]
  · rw [hs, shown]

end LS8
