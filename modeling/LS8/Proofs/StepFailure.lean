import LS8.Proofs.PrintedLines
import LS8.Proofs.SweepRun

/-! When a step fails, and what it leaves behind. Several causes can come together; they have an order,
and the first that holds is the one reported. A step that fails changes nothing, and of its output the
sink has at most a front part. -/

namespace LS8

theorem Memory.length_cellsFrom (m : Memory) (address : Nat) :
    (m.cellsFrom address).length = m.size - address := by
  rw [cellsFrom, List.length_drop, Array.length_toList, size]

theorem Memory.peek?_eq_head? (m : Memory) (address : Nat) :
    m.peek? address = (m.cellsFrom address).head? := by
  rw [List.head?_eq_getElem?, ← peek?_add, Nat.add_zero]

theorem Memory.cellsFrom_succ {m : Memory} {address : Nat} {byte : UInt8} {rest : List UInt8}
    (h : m.cellsFrom address = byte :: rest) : m.cellsFrom (address + 1) = rest :=
  cellsFrom_add (show m.cellsFrom address = [byte] ++ rest from h)

theorem Memory.cellsFrom_of_peek? {m : Memory} {address : Nat} {byte : UInt8}
    (h : m.peek? address = some byte) :
    m.cellsFrom address = byte :: m.cellsFrom (address + 1) := by
  rw [peek?_eq_head?] at h
  obtain ⟨rest, hr⟩ := List.head?_eq_some_iff.mp h
  rw [hr, cellsFrom_succ hr]

theorem Memory.exists_peek? {m : Memory} {address : Nat} (h : address < m.size) :
    ∃ byte, m.peek? address = some byte :=
  ⟨m.cells[address], Array.getElem?_eq_getElem h⟩

theorem Memory.lt_size_of_peek? {m : Memory} {address : Nat} {byte : UInt8}
    (h : m.peek? address = some byte) : address < m.size :=
  (Array.getElem?_eq_some_iff.mp h).1

/-- The operation whose opcode stands at the program counter. -/
def Machine.operation? (m : Machine) : Option Operation :=
  m.memory.peek? m.pc >>= Operation.ofByte?

theorem Machine.operation?_of_cells {m : Machine} {byte : UInt8} {rest : List UInt8}
    (h : m.memory.cellsFrom m.pc = byte :: rest) : m.operation? = Operation.ofByte? byte := by
  rw [operation?, Memory.peek?_eq_head?, h]
  rfl

theorem Machine.cells_of_operation? {m : Machine} {operation : Operation}
    (h : m.operation? = some operation) :
    ∃ byte, Operation.ofByte? byte = some operation ∧
      m.memory.cellsFrom m.pc = byte :: m.memory.cellsFrom (m.pc + 1) := by
  obtain ⟨byte, hp, hb⟩ := Option.bind_eq_some_iff.mp h
  exact ⟨byte, hb, Memory.cellsFrom_of_peek? hp⟩

theorem Machine.pc_lt_size_of_operation? {m : Machine} {operation : Operation}
    (h : m.operation? = some operation) : m.pc < m.memory.size := by
  obtain ⟨byte, hp, -⟩ := Option.bind_eq_some_iff.mp h
  exact Memory.lt_size_of_peek? hp

/-- A print of this register stands at the program counter. -/
structure Machine.Prints (m : Machine) (register : Register) : Prop where
  opcode : m.operation? = some .print
  operand : m.memory.peek? (m.pc + 1) = some register.byte

inductive Cause where
  | noOpcode
  | noOperand
  | badFirst
  | badSecond
  | refused

/-- The place of a cause in the order in which causes are looked for. -/
def Cause.rank : Cause → Nat
  | .noOpcode => 0
  | .noOperand => 1
  | .badFirst => 2
  | .badSecond => 3
  | .refused => 4

/-- A cause for the next step to fail, with the fault that reports it. Each cause is told by itself, so
several can hold at once. -/
inductive Machine.Blocked (m : Machine) (s : Sink) : Cause → Fault → Prop
  | noOpcode (outside : m.memory.size ≤ m.pc) :
      Blocked m s .noOpcode (.memoryOutOfBounds m.pc m.memory.size)
  | noOperand {operation : Operation} {offset : Nat} (opcode : m.operation? = some operation)
      (pos : 1 ≤ offset) (le : offset ≤ operation.operandCount)
      (outside : m.memory.size ≤ m.pc + offset)
      (lowest : ∀ lower, 1 ≤ lower → lower < offset → m.pc + lower < m.memory.size) :
      Blocked m s .noOperand (.memoryOutOfBounds (m.pc + offset) m.memory.size)
  | badFirst {operation : Operation} {index : UInt8} (opcode : m.operation? = some operation)
      (names : operation ∈ [Operation.loadImmediate, .print, .multiply])
      (operand : m.memory.peek? (m.pc + 1) = some index) (bad : registerCount ≤ index.toNat) :
      Blocked m s .badFirst (.registerOutOfBounds index)
  | badSecond {index : UInt8} (opcode : m.operation? = some .multiply)
      (operand : m.memory.peek? (m.pc + 2) = some index) (bad : registerCount ≤ index.toNat) :
      Blocked m s .badSecond (.registerOutOfBounds index)
  | refused {register : Register} {line : List UInt8} (prints : m.Prints register)
      (shows : DecimalLine line (m.registers.get register)) (full : ¬ s.Fits line) :
      Blocked m s .refused .outputClosed

structure Machine.FirstBlocked (m : Machine) (s : Sink) (cause : Cause) (fault : Fault) : Prop where
  blocked : m.Blocked s cause fault
  first {earlier : Cause} {other : Fault} (lt : earlier.rank < cause.rank) : ¬ m.Blocked s earlier other

section

variable {m : Machine} {s : Sink} {cause : Cause} {fault : Fault} {operation : Operation}

theorem Machine.exists_firstBlocked (h : m.Blocked s cause fault) :
    ∃ cause fault, m.FirstBlocked s cause fault := by
  -- by induction on the rank: a cause that is not the first gives way to one that is earlier
  induction hr : cause.rank using Nat.strongRecOn generalizing cause fault with
  | ind n ih =>
    by_cases earlier : ∃ other fault', other.rank < cause.rank ∧ m.Blocked s other fault'
    · obtain ⟨other, fault', lt, hb⟩ := earlier
      exact ih _ (hr ▸ lt) hb rfl
    · exact ⟨cause, fault, h, fun lt hb => earlier ⟨_, _, lt, hb⟩⟩

theorem Machine.blocked_of_short (opcode : m.operation? = some operation)
    (short : (m.memory.cellsFrom (m.pc + 1)).length < operation.operandCount) :
    m.Blocked s .noOperand (.memoryOutOfBounds
      (m.pc + (1 + (m.memory.cellsFrom (m.pc + 1)).length)) m.memory.size) := by
  have hp := pc_lt_size_of_operation? opcode
  rw [Memory.length_cellsFrom] at short ⊢
  refine .noOperand opcode ?_ ?_ ?_ fun lower _ _ => ?_
  all_goals omega

theorem Memory.add_eq_size_of_lowest {memory : Memory} {address offset : Nat}
    (inside : address < memory.size) (pos : 1 ≤ offset) (outside : memory.size ≤ address + offset)
    (lowest : ∀ lower, 1 ≤ lower → lower < offset → address + lower < memory.size) :
    address + offset = memory.size := by
  by_cases one : offset = 1
  · omega
  · -- the cell before the lowest that is missing is there
    have below := lowest (offset - 1) (by omega) (by omega)
    omega

theorem Machine.cycle_of_noOperand {offset : Nat} (opcode : m.operation? = some operation)
    (pos : 1 ≤ offset) (le : offset ≤ operation.operandCount)
    (outside : m.memory.size ≤ m.pc + offset)
    (lowest : ∀ lower, 1 ≤ lower → lower < offset → m.pc + lower < m.memory.size) :
    m.cycle = .error (.memoryOutOfBounds (m.pc + offset) m.memory.size) := by
  obtain ⟨byte, hb, hc⟩ := cells_of_operation? opcode
  have hp := Memory.add_eq_size_of_lowest (pc_lt_size_of_operation? opcode) pos outside lowest
  have hl := m.memory.length_cellsFrom (m.pc + 1)
  have ho : offset = 1 + (m.memory.cellsFrom (m.pc + 1)).length := by omega
  rw [ho]
  exact cycle_missing hc hb (by omega)

theorem Machine.cycle_of_badFirst {index : UInt8} (opcode : m.operation? = some operation)
    (names : operation ∈ [Operation.loadImmediate, .print, .multiply])
    (operand : m.memory.peek? (m.pc + 1) = some index) (bad : registerCount ≤ index.toNat)
    (complete : operation.operandCount ≤ (m.memory.cellsFrom (m.pc + 1)).length) :
    m.cycle = .error (.registerOutOfBounds index) := by
  obtain ⟨byte, hb, hc⟩ := cells_of_operation? opcode
  refine cycle_badRegister hc hb complete ?_
  obtain ⟨more, hn⟩ : ∃ more, operation.registerOperands = more + 1 := by
    cases operation with
    | loadImmediate | print => exact ⟨0, rfl⟩
    | multiply => exact ⟨1, rfl⟩
    | add | halt => simp at names
  rw [hn, Memory.cellsFrom_of_peek? operand, List.take_succ_cons]
  exact List.find?_cons_of_pos (by simpa using bad)

theorem Machine.cycle_of_badSecond {first index : UInt8} (opcode : m.operation? = some .multiply)
    (operand : m.memory.peek? (m.pc + 1) = some first) (good : ¬ registerCount ≤ first.toNat)
    (operand' : m.memory.peek? (m.pc + 2) = some index) (bad : registerCount ≤ index.toNat) :
    m.cycle = .error (.registerOutOfBounds index) := by
  obtain ⟨byte, hb, hc⟩ := cells_of_operation? opcode
  have ho := Memory.cellsFrom_of_peek? operand
  rw [Memory.cellsFrom_of_peek? operand'] at ho
  refine cycle_badRegister hc hb ?_ ?_
  · simp [ho, Operation.operandCount]
  · simp [ho, Operation.registerOperands, good, bad]

theorem Machine.Prints.cell {register : Register} (prints : m.Prints register) :
    m.memory.peek? m.pc = some 0x47 := by
  obtain ⟨byte, hp, hb⟩ := Option.bind_eq_some_iff.mp prints.opcode
  obtain rfl : byte = 0x47 := by simpa [opcodes] using Operation.mem_opcodes_of_ofByte? hb
  exact hp

theorem Machine.cycle_of_prints {register : Register} (prints : m.Prints register) :
    m.cycle = .ok (.printed (m.registers.get register), { m with pc := m.pc + 2 }) := by
  have hc := Memory.cellsFrom_of_peek? prints.cell
  rw [Memory.cellsFrom_of_peek? prints.operand] at hc
  exact cycle_item (i := .print register) hc

theorem Machine.step_of_firstBlocked {c : Console} (running : m.status = .running)
    (h : m.FirstBlocked c.sink cause fault) : (m.step c).result = .error fault := by
  obtain ⟨blocked, first⟩ := h
  -- past the second cause all the operands are there, so the cells of the instruction decide
  have complete (lt : Cause.rank .noOperand < cause.rank) {operation : Operation}
      (opcode : m.operation? = some operation) :
      operation.operandCount ≤ (m.memory.cellsFrom (m.pc + 1)).length :=
    Nat.le_of_not_lt fun short => first lt (blocked_of_short opcode short)
  cases blocked with
  | noOpcode outside =>
    have hc : m.memory.cellsFrom m.pc = [] := List.drop_eq_nil_iff.mpr outside
    rw [step_of_error running (cycle_noOpcode hc)]
    rfl
  | noOperand opcode pos le outside lowest =>
    rw [step_of_error running (cycle_of_noOperand opcode pos le outside lowest)]
  | badFirst opcode names operand bad =>
    have hl := complete (by decide) opcode
    rw [step_of_error running (cycle_of_badFirst opcode names operand bad hl)]
  | badSecond opcode operand bad =>
    obtain ⟨index, hi⟩ := Memory.exists_peek? (Nat.lt_of_succ_lt (Memory.lt_size_of_peek? operand))
    have good : ¬ registerCount ≤ index.toNat := fun hle =>
      first (by decide) (.badFirst opcode (by simp) hi hle)
    rw [step_of_error running (cycle_of_badSecond opcode hi good operand bad)]
  | refused prints shows full =>
    obtain rfl := decimalLine_iff.mp shows
    rw [step_of_refused running (cycle_of_prints prints) full]

theorem Machine.exists_blocked_of_named {index : UInt8} (s : Sink)
    (opcode : m.operation? = some operation)
    (named : index ∈ (m.memory.cellsFrom (m.pc + 1)).take operation.registerOperands)
    (bad : registerCount ≤ index.toNat) : ∃ cause fault, m.Blocked s cause fault := by
  obtain ⟨place, hlt, hi⟩ := List.mem_take_iff_getElem.mp named
  have operand : m.memory.peek? (m.pc + 1 + place) = some index := by
    rw [Memory.peek?_add, ← hi]
    exact List.getElem?_eq_getElem _
  cases operation with
  | add =>
    obtain ⟨byte, hb, -⟩ := cells_of_operation? opcode
    exact (Operation.ne_add_of_ofByte? hb rfl).elim
  | halt => simp [Operation.registerOperands] at hlt
  | print | loadImmediate =>
    obtain rfl : place = 0 := by
      simp only [Operation.registerOperands] at hlt
      omega
    exact ⟨.badFirst, _, .badFirst opcode (by simp) operand bad⟩
  | multiply =>
    obtain rfl | rfl : place = 0 ∨ place = 1 := by
      simp only [Operation.registerOperands] at hlt
      omega
    · exact ⟨.badFirst, _, .badFirst opcode (by simp) operand bad⟩
    · exact ⟨.badSecond, _, .badSecond opcode operand bad⟩

theorem Machine.exists_blocked_of_cycle (s : Sink) (h : m.cycle = .error fault) :
    ∃ cause fault, m.Blocked s cause fault := by
  have hc := m.cycled
  rw [h] at hc
  cases hc with
  | failed stands hf =>
    generalize hcells : m.memory.cellsFrom m.pc = cells at stands
    cases stands with
    | halt => cases hf
    | noOpcode => exact ⟨.noOpcode, _, .noOpcode (List.drop_eq_nil_iff.mp hcells)⟩
    | @noOperand byte operands operation hb short =>
      have opcode := (operation?_of_cells hcells).trans hb
      obtain rfl := Memory.cellsFrom_succ hcells
      exact ⟨.noOperand, _, blocked_of_short opcode short⟩
    | @badRegister byte index operands operation hb complete first =>
      have opcode := (operation?_of_cells hcells).trans hb
      obtain rfl := Memory.cellsFrom_succ hcells
      have bad : registerCount ≤ index.toNat := by simpa using List.find?_some first
      exact exists_blocked_of_named s opcode (List.mem_of_find?_eq_some first) bad

theorem Machine.prints_of_not_fits {next : Machine} {effect : Effect}
    (h : m.cycle = .ok (effect, next)) (full : ¬ s.Fits effect.output) :
    ∃ register, m.Prints register ∧ effect = .printed (m.registers.get register) := by
  have hc := m.cycled
  rw [h] at hc
  cases hc with
  | halt => exact (full s.fits_nil).elim
  | @item i rest cells =>
    cases i with
    | print register =>
      have operand := (m.memory.peek?_add m.pc 1).trans (congrArg (·[1]?) cells)
      exact ⟨register, ⟨operation?_of_cells cells, operand⟩, rfl⟩
    | unknown | loadImmediate | multiply => exact (full s.fits_nil).elim

theorem Machine.step_eq_error_iff {c : Console} (running : m.status = .running) :
    (m.step c).result = .error fault ↔ ∃ cause, m.FirstBlocked c.sink cause fault := by
  constructor
  · intro h
    have some : ∃ cause fault, m.Blocked c.sink cause fault := by
      cases hc : m.cycle with
      | error fault => exact exists_blocked_of_cycle c.sink hc
      | ok shown =>
        obtain ⟨effect, next⟩ := shown
        have full : ¬ c.sink.Fits effect.output := fun fits => by
          rw [step_of_fits running hc fits] at h
          cases h
        obtain ⟨register, prints, rfl⟩ := prints_of_not_fits hc full
        exact ⟨.refused, _, .refused prints (decimalLine_iff.mpr rfl) full⟩
    obtain ⟨_, _, blocked⟩ := some
    obtain ⟨cause, fault', first⟩ := exists_firstBlocked blocked
    cases h.symm.trans (step_of_firstBlocked running first)
    exact ⟨cause, first⟩
  · rintro ⟨cause, first⟩
    exact step_of_firstBlocked running first

end

/-- What a step does that does not fail, with all that it writes. What is not named stays. -/
inductive Machine.Succeeds (m : Machine) : Step → Machine → List UInt8 → Prop
  | unknown {byte : UInt8} (cell : m.memory.peek? m.pc = some byte)
      (noOpcode : Operation.ofByte? byte = none) :
      Succeeds m (.skipped m.pc byte) { m with pc := m.pc + 1 } []
  | halt (opcode : m.operation? = some .halt) :
      Succeeds m .halted { m with status := .halted } []
  | print {register : Register} {line : List UInt8} (prints : m.Prints register)
      (shows : DecimalLine line (m.registers.get register)) :
      Succeeds m (.executed .print) { m with pc := m.pc + 2 } line
  | loadImmediate {register : Register} {value : UInt8}
      (opcode : m.operation? = some .loadImmediate)
      (first : m.memory.peek? (m.pc + 1) = some register.byte)
      (second : m.memory.peek? (m.pc + 2) = some value) :
      Succeeds m (.executed .loadImmediate)
        { m with registers := m.registers.set register value, pc := m.pc + 3 } []
  | multiply {target source : Register} (opcode : m.operation? = some .multiply)
      (first : m.memory.peek? (m.pc + 1) = some target.byte)
      (second : m.memory.peek? (m.pc + 2) = some source.byte) :
      Succeeds m (.executed .multiply)
        { m with
          registers := m.registers.set target (m.registers.get target * m.registers.get source)
          pc := m.pc + 3 } []

theorem Machine.succeeds_of_item {m : Machine} {i : Item} {rest : List UInt8}
    (h : m.memory.cellsFrom m.pc = i.cells ++ rest) :
    m.Succeeds (i.effect m).step (i.next m) (i.effect m).output := by
  have operand (offset : Nat) : m.memory.peek? (m.pc + offset) = (i.cells ++ rest)[offset]? := by
    rw [Memory.peek?_add, h]
  cases i with
  | unknown byte noOpcode => exact .unknown (operand 0) noOpcode
  | loadImmediate register value =>
    exact .loadImmediate (operation?_of_cells h) (operand 1) (operand 2)
  | multiply target source => exact .multiply (operation?_of_cells h) (operand 1) (operand 2)
  | print register => exact .print ⟨operation?_of_cells h, operand 1⟩ (decimalLine_iff.mpr rfl)

theorem Machine.succeeds_of_cycle {m next : Machine} {effect : Effect}
    (h : m.cycle = .ok (effect, next)) : m.Succeeds effect.step next effect.output := by
  have hc := m.cycled
  rw [h] at hc
  cases hc with
  | item cells => exact succeeds_of_item cells
  | halt cells hb => exact .halt ((operation?_of_cells cells).trans hb)

/-- What the sink has of a step: of a success the whole output, of a refused print a proper front part
of its line, and else nothing. The machine is left as it was unless the step succeeds. -/
theorem Machine.step_outcome {m : Machine} (running : m.status = .running) (c : Console) :
    let turn := m.step c
    (∀ fault, turn.result = .error fault ↔ ∃ cause, m.FirstBlocked c.sink cause fault) ∧
      ((∃ fault, turn.result = .error fault) ↔ ∃ cause fault, m.Blocked c.sink cause fault) ∧
      (∀ fault, turn.result = .error fault → turn.machine = m ∧ ∃ front,
        turn.console.sink.accepted.toList = c.sink.accepted.toList ++ front ∧
          (fault ≠ .outputClosed → front = []) ∧
          (fault = .outputClosed → ∃ register line, m.Prints register ∧
            DecimalLine line (m.registers.get register) ∧
            front <+: line ∧ front.length < line.length)) ∧
      ∀ step, turn.result = .ok step → ∃ output, m.Succeeds step turn.machine output ∧
        turn.console.sink.accepted.toList = c.sink.accepted.toList ++ output := by
  intro turn
  refine ⟨fun fault => step_eq_error_iff running, ?_, fun fault h => ?_, fun step h => ?_⟩
  · constructor
    · rintro ⟨fault, h⟩
      obtain ⟨cause, first⟩ := (step_eq_error_iff running).mp h
      exact ⟨cause, fault, first.blocked⟩
    · rintro ⟨_, _, blocked⟩
      obtain ⟨cause, fault, first⟩ := exists_firstBlocked blocked
      exact ⟨fault, step_of_firstBlocked running first⟩
  · have hs : m.Stepped c turn := m.stepped c
    generalize turn = turn at hs h ⊢
    cases hs with
    | idle | done => cases h
    | failed _ error =>
      cases h
      refine ⟨rfl, [], (List.append_nil _).symm, fun _ => rfl, ?_⟩
      rintro rfl
      exact (m.cycle_ne_outputClosed error).elim
    | @refused effect next _ ok full =>
      cases h
      obtain ⟨register, prints, rfl⟩ := prints_of_not_fits ok full
      obtain ⟨front, isFront, short, ha⟩ := Sink.accepted_offer_of_not_fits full
      exact ⟨rfl, front, ha, fun other => (other rfl).elim, fun _ =>
        ⟨register, _, prints, decimalLine_iff.mpr rfl, isFront, short⟩⟩
  · have hs : m.Stepped c turn := m.stepped c
    generalize turn = turn at hs h ⊢
    cases hs with
    | idle halted => cases running.symm.trans halted
    | failed | refused => cases h
    | @done effect next _ ok fits =>
      cases h
      refine ⟨effect.output, succeeds_of_cycle ok, ?_⟩
      rw [Console.sink_follow, History.output_singleton, Sink.accepted_offer_of_fits fits]

/-- An instruction that the end of memory cuts off behind an operand that names no register: both are
causes, and the missing operand is the one reported. And a print of 72 with room for the first of its
three bytes, and with room for all. -/
theorem Machine.step_outcome_at_limits :
    let m : Machine := ⟨.zero, 0, ⟨#[0xA2, 9]⟩, .running⟩
    let closed : Console := ⟨.ofRoom 0, .empty .off⟩
    let n : Machine := ⟨⟨#v[72, 0, 0, 0, 0, 0, 0, 0]⟩, 0, ⟨#[0x47, 0]⟩, .running⟩
    let narrow : Console := ⟨.ofRoom 1, .empty .off⟩
    let wide : Console := ⟨.ofRoom 3, .empty .off⟩
    (m.status = .running ∧ m.Blocked closed.sink .badFirst (.registerOutOfBounds 9) ∧
      m.Blocked closed.sink .noOperand (.memoryOutOfBounds 2 2) ∧
      (m.step closed).result = .error (.memoryOutOfBounds 2 2) ∧ (m.step closed).machine = m) ∧
    (n.status = .running ∧ n.Blocked narrow.sink .refused .outputClosed ∧
      (n.step narrow).result = .error .outputClosed ∧ (n.step narrow).machine = n ∧
      (n.step narrow).console.sink.accepted.toList = [0x37]) ∧
    (n.step wide).result = .ok (.executed .print) ∧ (n.step wide).machine = { n with pc := 2 } ∧
      (n.step wide).console.sink.accepted.toList = [0x37, 0x32, 0x0A] := by
  intro m closed n narrow wide
  refine ⟨?_, ?_, ?_⟩
  · have opcode : m.operation? = some .multiply := rfl
    have bad : m.Blocked closed.sink .badFirst (.registerOutOfBounds 9) :=
      .badFirst opcode (by decide) rfl (by decide)
    have missing : m.Blocked closed.sink .noOperand (.memoryOutOfBounds (m.pc + 2) m.memory.size) := by
      refine .noOperand opcode (by decide) (by decide) (by decide) fun lower pos lt => ?_
      obtain rfl : lower = 1 := by omega
      decide
    have first {earlier : Cause} {other : Fault} (lt : earlier.rank < Cause.rank .noOperand) :
        ¬ m.Blocked closed.sink earlier other := by
      rintro (outside | _ | _ | _ | _)
      · exact absurd outside (by decide)
      all_goals exact absurd lt (by decide)
    obtain ⟨reported, -, kept, -⟩ := step_outcome (m := m) rfl closed
    have failed := (reported _).mpr ⟨.noOperand, missing, first⟩
    exact ⟨rfl, bad, missing, failed, (kept _ failed).1⟩
  · have prints : n.Prints ⟨0, by decide⟩ := ⟨rfl, rfl⟩
    have shows : DecimalLine [0x37, 0x32, 0x0A] (n.registers.get ⟨0, by decide⟩) :=
      ⟨[0x37, 0x32], ⟨nofun, by decide +kernel, by decide, by decide⟩, rfl⟩
    have full : n.Blocked narrow.sink .refused .outputClosed := .refused prints shows (by decide)
    have failed : (n.step narrow).result = .error .outputClosed := by decide +kernel
    obtain ⟨-, -, kept, -⟩ := step_outcome (m := n) rfl narrow
    exact ⟨rfl, full, failed, (kept _ failed).1, by decide +kernel⟩
  · obtain ⟨-, -, -, succeeds⟩ := step_outcome (m := n) rfl wide
    have ok : (n.step wide).result = .ok (.executed .print) := by decide +kernel
    obtain ⟨output, done, -⟩ := succeeds _ ok
    refine ⟨ok, ?_, by decide +kernel⟩
    generalize (n.step wide).machine = next at done
    cases done
    rfl

end LS8
