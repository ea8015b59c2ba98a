import LS8.Proofs.StepByStep
import LS8.Proofs.SweepRun
import Mathlib.Data.Fin.Rev

/-! Machines with their registers renamed. A permutation of the registers moves the slots of the
register file, and the operands of the program that name registers are renamed by it. The machine that
comes of this goes through the same cycles as the one it was made from, so no register is special. -/

namespace LS8

variable (q : Equiv.Perm Register)

/-- The register file with the value of each slot moved to the slot that `q` sends it to. -/
def Registers.permute (r : Registers) : Registers := ⟨.ofFn fun i => r.get (q.symm i)⟩

theorem Registers.get_permute (r : Registers) (i : Register) : (r.permute q).get (q i) = r.get i := by
  simp [permute, get]

theorem Registers.set_permute (r : Registers) (i : Register) (value : UInt8) :
    (r.permute q).set (q i) value = (r.set i value).permute q := by
  refine ext_get fun k => ?_
  obtain ⟨j, rfl⟩ := q.surjective k
  simp only [get_set, get_permute, q.injective.eq_iff]

/-- The name of a register after the renaming. A byte that names no register stays as it is. -/
def renameIndex (index : UInt8) : UInt8 :=
  if h : index.toNat < registerCount then (q ⟨index.toNat, h⟩).byte else index

theorem renameIndex_byte (i : Register) : renameIndex q i.byte = (q i).byte := by
  simp only [renameIndex, i.toNat_byte, i.isLt, dif_pos, Fin.eta]

theorem renameIndex_of_le {index : UInt8} (h : registerCount ≤ index.toNat) :
    renameIndex q index = index := dif_neg (Nat.not_lt_of_le h)

theorem le_toNat_renameIndex_iff (index : UInt8) :
    registerCount ≤ (renameIndex q index).toNat ↔ registerCount ≤ index.toNat := by
  by_cases h : registerCount ≤ index.toNat
  · rw [renameIndex_of_le q h]
  · rw [renameIndex, dif_pos (Nat.lt_of_not_le h)]
    exact iff_of_false (Register.not_le_toNat_byte _) h

/-- Renames the registers in the instruction at the front, as many of its operands as there are. -/
def renameFront : List UInt8 → List UInt8
  | [] => []
  | byte :: operands =>
    match Operation.ofByte? byte with
    | none => byte :: operands
    | some operation =>
      let registers := operands.take operation.registerOperands
      byte :: (registers.map (renameIndex q) ++ operands.drop operation.registerOperands)

theorem renameFront_of_some {byte : UInt8} {operation : Operation}
    (h : Operation.ofByte? byte = some operation) (operands : List UInt8) :
    renameFront q (byte :: operands) =
      byte :: ((operands.take operation.registerOperands).map (renameIndex q) ++
        operands.drop operation.registerOperands) := by
  simp only [renameFront, h]

theorem length_renameFront (cells : List UInt8) : (renameFront q cells).length = cells.length := by
  cases cells with
  | nil => rfl
  | cons byte operands =>
    cases h : Operation.ofByte? byte with
    | none => simp only [renameFront, h]
    | some operation =>
      rw [renameFront_of_some q h, List.length_cons, List.length_append, List.length_map,
        ← List.length_append, List.take_append_drop, List.length_cons]

def Item.rename : Item → Item
  | .unknown byte noOpcode => .unknown byte noOpcode
  | .loadImmediate register value => .loadImmediate (q register) value
  | .multiply target source => .multiply (q target) (q source)
  | .print register => .print (q register)

theorem Item.cells_rename (i : Item) : (i.rename q).cells = renameFront q i.cells := by
  cases i with
  | unknown byte noOpcode => simp only [rename, cells, renameFront, noOpcode]
  | loadImmediate register value =>
    have h : Operation.ofByte? 0x82 = some .loadImmediate := rfl
    rw [rename, cells, cells, renameFront_of_some q h]
    simp [Operation.registerOperands, renameIndex_byte]
  | multiply target source =>
    have h : Operation.ofByte? 0xA2 = some .multiply := rfl
    rw [rename, cells, cells, renameFront_of_some q h]
    simp [Operation.registerOperands, renameIndex_byte]
  | print register =>
    have h : Operation.ofByte? 0x47 = some .print := rfl
    rw [rename, cells, cells, renameFront_of_some q h]
    simp [Operation.registerOperands, renameIndex_byte]

theorem Item.size_rename (i : Item) : (i.rename q).size = i.size := by
  rw [size, size, cells_rename, length_renameFront]

theorem find?_map_renameIndex {registers : List UInt8} {index : UInt8}
    (first : registers.find? (registerCount ≤ ·.toNat) = some index) :
    (registers.map (renameIndex q)).find? (registerCount ≤ ·.toNat) = some index := by
  have bad : registerCount ≤ index.toNat := by simpa using List.find?_some first
  have same : (fun index : UInt8 => decide (registerCount ≤ index.toNat)) ∘ renameIndex q =
      fun index : UInt8 => decide (registerCount ≤ index.toNat) :=
    funext fun index => decide_eq_decide.mpr (le_toNat_renameIndex_iff q index)
  rw [List.find?_map, same, first, Option.map_some, renameIndex_of_le q bad]

/-- What ends a sweep ends it after the renaming too, since no cell is added or taken away and the
operand that names no register is still the first of its kind. -/
theorem Ending.StandsAt.rename {e : Ending} {cells : List UInt8} (h : e.StandsAt cells) :
    e.StandsAt (renameFront q cells) := by
  cases h with
  | halt h =>
    rw [renameFront_of_some q h]
    exact .halt h
  | noOpcode => exact .noOpcode
  | @noOperand byte operands operation h short =>
    have same := length_renameFront q (byte :: operands)
    rw [renameFront_of_some q h] at same ⊢
    rw [← Nat.succ.inj same] at short ⊢
    exact .noOperand h short
  | @badRegister byte index operands operation h complete first =>
    have same := length_renameFront q (byte :: operands)
    rw [renameFront_of_some q h] at same ⊢
    refine .badRegister h ((Nat.succ.inj same).symm ▸ complete) ?_
    have named := Nat.le_trans operation.registerOperands_le complete
    rw [List.take_left' (by rw [List.length_map, List.length_take, Nat.min_eq_left named])]
    exact find?_map_renameIndex q first

/-- Renames the registers in each instruction that the sweep comes to, also in the one that ends it. -/
def renameCells (cells : List UInt8) : List UInt8 :=
  let s := sweep cells
  s.items.flatMap (fun i => renameFront q i.cells) ++ renameFront q (cells.drop s.length)

theorem renameCells_append (i : Item) (rest : List UInt8) :
    renameCells q (i.cells ++ rest) = (i.rename q).cells ++ renameCells q rest := by
  simp only [renameCells, sweep_append, Sweep.length, List.flatMap_cons, List.length_append,
    ← List.drop_drop, List.drop_left, List.append_assoc, Item.cells_rename]

theorem renameCells_of_standsAt {e : Ending} {cells : List UInt8} (h : e.StandsAt cells) :
    renameCells q cells = renameFront q cells := by
  simp only [renameCells, sweep_of_standsAt h]
  rfl

theorem length_renameCells (cells : List UInt8) : (renameCells q cells).length = cells.length := by
  induction cells using sweep.induct with
  | case1 cells e he =>
    rw [renameCells_of_standsAt q (Ending.standsAt_of_ofCells he), length_renameFront]
  | case2 cells i hi _ ih =>
    obtain ⟨rest, rfl⟩ := Item.append_of_ofCells hi
    rw [i.drop_size_append] at ih
    rw [renameCells_append, List.length_append, List.length_append, ih, i.cells_rename,
      length_renameFront]

theorem Item.effect_rename (i : Item) {m n : Machine} (registers : n.registers = m.registers.permute q)
    (pc : n.pc = m.pc) : (i.rename q).effect n = i.effect m := by
  cases i with
  | unknown byte noOpcode => simp only [rename, effect, pc]
  | loadImmediate | multiply => rfl
  | print register => simp only [rename, effect, registers, Registers.get_permute]

theorem Item.update_rename (i : Item) (r : Registers) :
    (i.rename q).update (r.permute q) = (i.update r).permute q := by
  cases i with
  | unknown | print => rfl
  | loadImmediate register value => exact r.set_permute q register value
  | multiply target source =>
    simp only [rename, update, Registers.get_permute, Registers.set_permute]

/-- The second machine is the first with its registers renamed, in the register file and in the cells
that lie ahead. -/
structure Machine.Renames (m n : Machine) : Prop where
  registers : n.registers = m.registers.permute q
  pc : n.pc = m.pc
  status : n.status = m.status
  size : n.memory.size = m.memory.size
  cells : n.memory.cellsFrom n.pc = renameCells q (m.memory.cellsFrom m.pc)

/-- Two turns that report the same and show the same, on machines of which the second is the first with
its registers renamed. Their logs may differ, since these show the registers. -/
structure Turn.Renames {α : Type} (t u : Turn α) : Prop where
  result : u.result = t.result
  sink : u.console.sink = t.console.sink
  machine : Machine.Renames q t.machine u.machine

section Machine

variable {q} {m n : Machine} {c d : Console}

theorem Machine.Renames.past {i : Item} {rest : List UInt8} (h : Renames q m n)
    (cells : m.memory.cellsFrom m.pc = i.cells ++ rest) :
    Renames q (i.next m) ((i.rename q).next n) := by
  have hn : n.memory.cellsFrom n.pc = (i.rename q).cells ++ renameCells q rest := by
    rw [h.cells, cells, renameCells_append]
  have registers : (i.rename q).update n.registers = (i.update m.registers).permute q := by
    rw [h.registers, i.update_rename]
  have pc : n.pc + (i.rename q).size = m.pc + i.size := by rw [h.pc, i.size_rename]
  refine ⟨registers, pc, h.status, h.size, ?_⟩
  show n.memory.cellsFrom (n.pc + (i.rename q).size) =
    renameCells q (m.memory.cellsFrom (m.pc + i.size))
  rw [Item.size, Memory.cellsFrom_add hn, Item.size, Memory.cellsFrom_add cells]

theorem Machine.Renames.cycle_ok {effect : Effect} {next : Machine} (h : Renames q m n)
    (ok : m.cycle = .ok (effect, next)) :
    ∃ next', n.cycle = .ok (effect, next') ∧ Renames q next next' := by
  have hm := m.cycled
  rw [ok] at hm
  cases hm with
  | @item i rest cells =>
    refine ⟨(i.rename q).next n, ?_, h.past cells⟩
    rw [← i.effect_rename q h.registers h.pc]
    exact cycle_item (by rw [h.cells, cells, renameCells_append])
  | @halt byte rest cells hb =>
    have stands : Ending.halt.StandsAt (byte :: rest) := .halt hb
    have hn : n.memory.cellsFrom n.pc = renameFront q (byte :: rest) := by
      rw [h.cells, cells, renameCells_of_standsAt q stands]
    rw [renameFront_of_some q hb] at hn
    refine ⟨{ n with status := .halted }, ?_, ⟨h.registers, h.pc, rfl, h.size, h.cells⟩⟩
    rw [← h.pc]
    exact cycle_halt hn hb

theorem Machine.Renames.cycle_error {fault : Fault} (h : Renames q m n)
    (error : m.cycle = .error fault) : n.cycle = .error fault := by
  have hm := m.cycled
  rw [error] at hm
  cases hm with
  | @failed e _ stands hf =>
    have hn : e.StandsAt (n.memory.cellsFrom n.pc) := by
      rw [h.cells, renameCells_of_standsAt q stands]
      exact stands.rename q
    refine cycle_of_fault? hn ?_
    rwa [h.pc, h.size]

theorem Machine.Renames.step (h : Renames q m n) (sink : d.sink = c.sink) :
    (m.step c).Renames q (n.step d) := by
  have follow (history history' : History) (output : history'.output = history.output) :
      (d.follow history').sink = (c.follow history).sink := by
    rw [Console.sink_follow, Console.sink_follow, sink, output]
  have hs := m.stepped c
  generalize m.step c = turn at hs
  cases hs with
  | idle halted =>
    rw [step_of_halted (h.status.trans halted)]
    exact ⟨rfl, sink, h⟩
  | failed running error =>
    rw [step_of_error (h.status.trans running) (h.cycle_error error)]
    exact ⟨rfl, sink, h⟩
  | refused running ok refused =>
    obtain ⟨next', ok', -⟩ := h.cycle_ok ok
    rw [step_of_refused (h.status.trans running) ok' (sink ▸ refused)]
    exact ⟨rfl, follow _ _ rfl, h⟩
  | done running ok fits =>
    obtain ⟨next', ok', next⟩ := h.cycle_ok ok
    rw [step_of_fits (h.status.trans running) ok' (sink ▸ fits)]
    exact ⟨rfl, follow _ _ rfl, next⟩

theorem Machine.Renames.runFrom (h : Renames q m n) (sink : d.sink = c.sink) (s : Summary) :
    (m.runFrom c s).Renames q (n.runFrom d s) := by
  induction m, c, s using Machine.runFrom.induct generalizing n d with
  | case1 m c s halted =>
    rw [runFrom_of_halted halted, runFrom_of_halted (h.status.trans halted)]
    exact ⟨rfl, sink, h⟩
  | case2 m c s running fault next shown hm =>
    have stepped := h.step sink
    rw [hm] at stepped
    generalize hn : n.step d = turn at stepped
    obtain ⟨result, next', shown'⟩ := turn
    cases stepped.result
    rw [runFrom_of_step_error running hm, runFrom_of_step_error (h.status.trans running) hn]
    exact ⟨rfl, stepped.sink, stepped.machine⟩
  | case3 m c s running step next shown hm _ ih =>
    have stepped := h.step sink
    rw [hm] at stepped
    generalize hn : n.step d = turn at stepped
    obtain ⟨result, next', shown'⟩ := turn
    cases stepped.result
    rw [runFrom_of_step_ok running hm, runFrom_of_step_ok (h.status.trans running) hn]
    exact ih stepped.machine stepped.sink

end Machine

def Memory.rename (address : Nat) (m : Memory) : Memory :=
  ⟨(m.cells.toList.take address ++ renameCells q (m.cellsFrom address)).toArray⟩

theorem Memory.size_rename (address : Nat) (m : Memory) : (m.rename q address).size = m.size := by
  simp only [rename, size, List.size_toArray, List.length_append, length_renameCells, cellsFrom]
  rw [← List.length_append, List.take_append_drop, Array.length_toList]

theorem Memory.cellsFrom_rename (address : Nat) (m : Memory) :
    (m.rename q address).cellsFrom address = renameCells q (m.cellsFrom address) := by
  rw [cellsFrom, rename]
  by_cases inside : address ≤ m.cells.toList.length
  · exact List.drop_left' (by rw [List.length_take, Nat.min_eq_left inside])
  · have outside : m.cellsFrom address = [] := List.drop_eq_nil_of_le (Nat.le_of_not_le inside)
    have none : renameCells q [] = [] := renameCells_of_standsAt q .noOpcode
    rw [outside, none, List.append_nil]
    exact List.drop_eq_nil_of_le (List.length_take_le _ _)

/-- A machine with its registers renamed, in the register file and in the instructions that the sweep
from the program counter on comes to. -/
def Machine.rename (m : Machine) : Machine :=
  { m with registers := m.registers.permute q, memory := m.memory.rename q m.pc }

theorem Machine.renames_rename (m : Machine) : Renames q m (m.rename q) :=
  ⟨rfl, rfl, rfl, m.memory.size_rename q m.pc, m.memory.cellsFrom_rename q m.pc⟩

/-- Whatever the permutation, a machine with its registers renamed runs as it would have run without:
with the same result and output, to the same program counter and status, and with the same values in
the slots they were moved to. This includes the registers that are reserved by convention. -/
theorem Machine.run_of_renamed_registers (m : Machine) (c : Console) :
    let n := m.rename q
    (∀ i, n.registers.get (q i) = m.registers.get i) ∧ n.memory.size = m.memory.size ∧
      (n.run c).result = (m.run c).result ∧
      (n.run c).console.sink = (m.run c).console.sink ∧
      (n.run c).machine.pc = (m.run c).machine.pc ∧
      (n.run c).machine.status = (m.run c).machine.status ∧
      ∀ i, (n.run c).machine.registers.get (q i) = (m.run c).machine.registers.get i := by
  intro n
  have renamed : Renames q m n := m.renames_rename q
  obtain ⟨result, sink, ran⟩ : (m.run c).Renames q (n.run c) := renamed.runFrom rfl .empty
  refine ⟨fun i => ?_, renamed.size, result, sink, ran.pc, ran.status, fun i => ?_⟩
  · rw [renamed.registers, Registers.get_permute]
  · rw [ran.registers, Registers.get_permute]

/-- The registers in reverse order, so that the stack pointer stands first. The immediate value stays,
and so does the operand that names no register. -/
example :
    let m : Machine := ⟨.zero, 1, ⟨#[0x47, 0x82, 0, 6, 0xA2, 0, 0, 0x47, 0, 0xA2, 2, 8]⟩, .running⟩
    let n := m.rename Fin.revPerm
    n.memory = ⟨#[0x47, 0x82, 7, 6, 0xA2, 7, 7, 0x47, 7, 0xA2, 5, 8]⟩ ∧
      (n.run ⟨.unlimited, .empty .off⟩).result = .error (.registerOutOfBounds 8) := by
  decide +kernel

end LS8
