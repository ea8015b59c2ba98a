import LS8.Proofs.Running
import LS8.Proofs.Sweep

/-! Runs as sweeps. What a run does can be told in two passes: the sweep over memory, which knows
nothing of the registers, and then a fold of its items over the registers and the output. -/

namespace LS8

def Memory.cellsFrom (m : Memory) (address : Nat) : List UInt8 := m.cells.toList.drop address

theorem Memory.peek?_add (m : Memory) (address offset : Nat) :
    m.peek? (address + offset) = (m.cellsFrom address)[offset]? := by
  rw [peek?, ← Array.getElem?_toList, cellsFrom, List.getElem?_drop]

theorem Memory.read_append {m : Memory} {address : Nat} {byte : UInt8} {rest : List UInt8}
    (front : List UInt8) (h : m.cellsFrom address = front ++ byte :: rest) :
    m.read (address + front.length) = .ok byte := by
  have hp : m.peek? (address + front.length) = some byte := by
    rw [peek?_add, h, List.getElem?_append_right (Nat.le_refl _), Nat.sub_self]
    rfl
  exact read_of_peek? hp

theorem Memory.read_behind {m : Memory} {address : Nat} {cells : List UInt8}
    (h : m.cellsFrom address = cells) :
    m.read (address + cells.length) =
      .error (.memoryOutOfBounds (address + cells.length) m.size) := by
  have hp : m.peek? (address + cells.length) = none := by
    rw [peek?_add, h, List.getElem?_eq_none (Nat.le_refl _)]
  simp only [read, hp]

theorem Memory.cellsFrom_add {m : Memory} {address : Nat} {front rest : List UInt8}
    (h : m.cellsFrom address = front ++ rest) : m.cellsFrom (address + front.length) = rest := by
  rw [cellsFrom, ← List.drop_drop, ← cellsFrom, h, List.drop_left]

def Item.instruction : Item → Instruction
  | .unknown byte _ => .unknown byte
  | .loadImmediate register value => .loadImmediate register.byte value
  | .multiply target source => .arithmetic .multiply target.byte source.byte
  | .print register => .print register.byte

section Fetch

variable {m : Memory} {address : Nat} {byte : UInt8}

theorem Memory.fetch_unknown (hb : m.read address = .ok byte)
    (h : Operation.ofByte? byte = none) : m.fetch address = .ok (.unknown byte) := by
  simp only [fetch, hb, bind, Except.bind, h]
  rfl

theorem Memory.fetch_halt (hb : m.read address = .ok byte)
    (h : Operation.ofByte? byte = some .halt) : m.fetch address = .ok .halt := by
  simp only [fetch, hb, bind, Except.bind, h]
  rfl

theorem Memory.fetch_print (hb : m.read address = .ok byte)
    (h : Operation.ofByte? byte = some .print) :
    m.fetch address = do return .print (← m.read (address + 1)) := by
  simp only [fetch, hb, bind, Except.bind, h]

theorem Memory.fetch_loadImmediate (hb : m.read address = .ok byte)
    (h : Operation.ofByte? byte = some .loadImmediate) :
    m.fetch address = do
      let register ← m.read (address + 1)
      return .loadImmediate register (← m.read (address + 2)) := by
  simp only [fetch, hb, bind, Except.bind, h]

theorem Memory.fetch_multiply (hb : m.read address = .ok byte)
    (h : Operation.ofByte? byte = some .multiply) :
    m.fetch address = do
      let target ← m.read (address + 1)
      return .arithmetic .multiply target (← m.read (address + 2)) := by
  simp only [fetch, hb, bind, Except.bind, h]

theorem Memory.fetch_item {i : Item} {rest : List UInt8}
    (h : m.cellsFrom address = i.cells ++ rest) : m.fetch address = .ok i.instruction := by
  cases i with
  | unknown byte noOpcode =>
    have hb : m.read address = .ok byte := read_append [] h
    exact fetch_unknown hb noOpcode
  | loadImmediate register value =>
    have hb : m.read address = .ok 0x82 := read_append [] h
    have hr : m.read (address + 1) = .ok register.byte := read_append [0x82] h
    have hv : m.read (address + 2) = .ok value := read_append [0x82, register.byte] h
    rw [fetch_loadImmediate hb rfl, hr, hv]
    rfl
  | multiply target source =>
    have hb : m.read address = .ok 0xA2 := read_append [] h
    have ht : m.read (address + 1) = .ok target.byte := read_append [0xA2] h
    have hs : m.read (address + 2) = .ok source.byte := read_append [0xA2, target.byte] h
    rw [fetch_multiply hb rfl, ht, hs]
    rfl
  | print register =>
    have hb : m.read address = .ok 0x47 := read_append [] h
    have hr : m.read (address + 1) = .ok register.byte := read_append [0x47] h
    rw [fetch_print hb rfl, hr]
    rfl

end Fetch

def Item.update (i : Item) (r : Registers) : Registers :=
  match i with
  | .unknown _ _ | .print _ => r
  | .loadImmediate register value => r.set register value
  | .multiply target source => r.set target (r.get target * r.get source)

/-- The digits of a number below a thousand, as many as it needs. -/
def digitsOf (n : Nat) : List Nat :=
  if n < 10 then [n]
  else if n < 100 then [n / 10, n % 10]
  else [n / 100, n / 10 % 10, n % 10]

def Item.output (i : Item) (r : Registers) : List UInt8 :=
  match i with
  | .unknown _ _ | .loadImmediate _ _ | .multiply _ _ => []
  | .print register =>
    (digitsOf (r.get register).toNat).map (fun digit => 0x30 + UInt8.ofNat digit) ++ [0x0A]

theorem lt_ten_of_mem_digitsOf {n digit : Nat} (small : n < 1000) (h : digit ∈ digitsOf n) :
    digit < 10 := by
  rw [digitsOf] at h
  split at h
  · simp only [List.mem_singleton] at h
    omega
  · split at h
    · simp only [List.mem_cons, List.not_mem_nil, or_false] at h
      omega
    · simp only [List.mem_cons, List.not_mem_nil, or_false] at h
      omega

theorem toDigits_eq_digitsOf {n : Nat} (small : n < 1000) :
    Nat.toDigits 10 n = (digitsOf n).map Nat.digitChar := by
  rw [digitsOf]
  by_cases one : n < 10
  · rw [if_pos one, Nat.toDigits_of_lt_base one, List.map_singleton]
  rw [if_neg one, Nat.toDigits_of_base_le (by decide) (Nat.le_of_not_lt one)]
  by_cases two : n < 100
  · rw [if_pos two, Nat.toDigits_of_lt_base (show n / 10 < 10 by omega)]
    rfl
  · have hundreds : n / 10 / 10 = n / 100 := Nat.div_div_eq_div_mul n 10 10
    rw [if_neg two, Nat.toDigits_of_base_le (by decide) (show 10 ≤ n / 10 by omega), hundreds,
      Nat.toDigits_of_lt_base (show n / 100 < 10 by omega)]
    rfl

theorem Item.output_print (register : Register) (r : Registers) :
    (Item.print register).output r = outputLine (r.get register) := by
  have small : (r.get register).toNat < 1000 := Nat.lt_trans (r.get register).toNat_lt (by decide)
  have each : ∀ digit < 10, (Nat.digitChar digit).toUInt8 = 0x30 + UInt8.ofNat digit := by decide
  rw [output, outputLine, toDigits_eq_digitsOf small, List.map_map]
  congr 1
  exact List.map_congr_left fun digit h => (each digit (lt_ten_of_mem_digitsOf small h)).symm

def carryOut (items : List Item) (r : Registers) : Registers × List UInt8 :=
  items.foldl (fun (r, output) i => (i.update r, output ++ i.output r)) (r, [])

theorem foldl_carryOut (items : List Item) (r : Registers) (output : List UInt8) :
    items.foldl (fun (r, output) i => (i.update r, output ++ i.output r)) (r, output) =
      ((carryOut items r).1, output ++ (carryOut items r).2) := by
  induction items generalizing r output with
  | nil => simp [carryOut]
  | cons i items ih =>
    rw [carryOut, List.foldl_cons, List.foldl_cons, ih, ih]
    simp

theorem carryOut_cons (i : Item) (items : List Item) (r : Registers) :
    carryOut (i :: items) r =
      ((carryOut items (i.update r)).1, i.output r ++ (carryOut items (i.update r)).2) := by
  rw [carryOut, List.foldl_cons, foldl_carryOut, List.nil_append]

theorem carryOut_append (front rest : List Item) (r : Registers) :
    carryOut (front ++ rest) r =
      ((carryOut rest (carryOut front r).1).1,
        (carryOut front r).2 ++ (carryOut rest (carryOut front r).1).2) := by
  rw [carryOut, List.foldl_append]
  exact foldl_carryOut rest _ _

/-- The items with their addresses, if the first of them stands at `address`. -/
def placed (address : Nat) : List Item → List (Nat × Item)
  | [] => []
  | i :: items => (address, i) :: placed (address + i.size) items

/-- The bytes among the items that are no opcodes, with their addresses. -/
def skippedAt (address : Nat) (items : List Item) : List (Nat × UInt8) :=
  (placed address items).filterMap fun
    | (address, .unknown byte _) => some (address, byte)
    | _ => none

theorem placed_append (address : Nat) (front rest : List Item) :
    placed address (front ++ rest) =
      placed address front ++ placed (address + (front.flatMap Item.cells).length) rest := by
  induction front generalizing address with
  | nil => simp [placed]
  | cons i front ih => simp [placed, ih, Item.size, Nat.add_assoc]

theorem skippedAt_append (address : Nat) (front rest : List Item) :
    skippedAt address (front ++ rest) =
      skippedAt address front ++ skippedAt (address + (front.flatMap Item.cells).length) rest := by
  rw [skippedAt, placed_append, List.filterMap_append]
  rfl

theorem bounds_of_mem_placed {address : Nat} {items : List Item} {p : Nat × Item}
    (h : p ∈ placed address items) :
    address ≤ p.1 ∧ p.1 < address + (items.flatMap Item.cells).length := by
  induction items generalizing address with
  | nil => simp [placed] at h
  | cons i items ih =>
    have hp : 0 < i.cells.length := i.size_pos
    simp only [List.flatMap_cons, List.length_append]
    rcases List.mem_cons.mp h with rfl | h
    · omega
    · have hh := ih h
      simp only [Item.size] at hh
      omega

theorem bounds_of_mem_skippedAt {address : Nat} {items : List Item} {p : Nat × UInt8}
    (h : p ∈ skippedAt address items) :
    address ≤ p.1 ∧ p.1 < address + (items.flatMap Item.cells).length := by
  obtain ⟨q, hq, hp⟩ := List.mem_filterMap.mp h
  have hh := bounds_of_mem_placed hq
  obtain ⟨a, i⟩ := q
  cases i <;> simp at hp
  rwa [← hp]

def Sweep.length (s : Sweep) : Nat := (s.items.flatMap Item.cells).length

/-- How a run ends whose cells are swept like this, from an address on in a memory of some size. -/
def Sweep.result (s : Sweep) (address size : Nat) : Except Fault Summary :=
  match s.ending with
  | .halt => .ok ⟨s.items.length + 1, (skippedAt address s.items).toArray⟩
  | .missing offset => .error (.memoryOutOfBounds (address + s.length + offset) size)
  | .badRegister index => .error (.registerOutOfBounds index)

def Ending.status : Ending → Status
  | .halt => .halted
  | .missing _ | .badRegister _ => .running

def Item.effect (i : Item) (m : Machine) : Effect :=
  match i with
  | .unknown byte _ => .skipped m.pc byte
  | .loadImmediate _ _ => .computed .loadImmediate
  | .multiply _ _ => .computed .multiply
  | .print register => .printed (m.registers.get register)

def Item.next (i : Item) (m : Machine) : Machine :=
  { m with registers := i.update m.registers, pc := m.pc + i.size }

theorem Machine.cycle_item {m : Machine} {i : Item} {rest : List UInt8}
    (h : m.memory.cellsFrom m.pc = i.cells ++ rest) :
    m.cycle = .ok (i.effect m, i.next m) := by
  rw [cycle, Memory.fetch_item h]
  show m.execute i.instruction = _
  cases i with
  | unknown byte noOpcode => rfl
  | loadImmediate register value =>
    rw [Item.instruction, execute, Registers.write_byte]
    rfl
  | multiply target source =>
    have hc : Operation.multiply.combine? = some (· * ·) := rfl
    rw [Item.instruction, execute, Registers.apply_byte hc]
    rfl
  | print register =>
    rw [Item.instruction, execute, Registers.read_byte]
    rfl

theorem Machine.cycle_halt {m : Machine} {byte : UInt8} {cells : List UInt8}
    (hc : m.memory.cellsFrom m.pc = byte :: cells) (h : Operation.ofByte? byte = some .halt) :
    m.cycle = .ok (.halted m.pc, { m with status := .halted }) := by
  have hb : m.memory.read m.pc = .ok byte := Memory.read_append [] hc
  rw [cycle, Memory.fetch_halt hb h]
  rfl

theorem Machine.cycle_noOpcode {m : Machine} (hc : m.memory.cellsFrom m.pc = []) :
    m.cycle = .error (.memoryOutOfBounds (m.pc + 0) m.memory.size) := by
  have hb : m.memory.read m.pc = _ := Memory.read_behind hc
  rw [cycle, Memory.fetch, hb]
  rfl

theorem Machine.cycle_missing {m : Machine} {byte : UInt8} {operands : List UInt8}
    {operation : Operation} (hc : m.memory.cellsFrom m.pc = byte :: operands)
    (h : Operation.ofByte? byte = some operation) (short : operands.length < operation.operandCount) :
    m.cycle = .error (.memoryOutOfBounds (m.pc + (1 + operands.length)) m.memory.size) := by
  have hb : m.memory.read m.pc = .ok byte := Memory.read_append [] hc
  have hm := Memory.read_behind hc
  cases operation with
  | add => exact (Operation.ne_add_of_ofByte? h rfl).elim
  | halt => simp [Operation.operandCount] at short
  | print =>
    obtain rfl := List.eq_nil_of_length_eq_zero (Nat.lt_one_iff.mp short)
    have hr : m.memory.read (m.pc + 1) = _ := hm
    rw [cycle, Memory.fetch_print hb h, hr]
    rfl
  | loadImmediate =>
    obtain rfl | ⟨register, rfl⟩ := eq_nil_or_singleton_of_length_lt short
    · have hr : m.memory.read (m.pc + 1) = _ := hm
      rw [cycle, Memory.fetch_loadImmediate hb h, hr]
      rfl
    · have hr : m.memory.read (m.pc + 1) = .ok register := Memory.read_append [byte] hc
      have hv : m.memory.read (m.pc + 2) = _ := hm
      rw [cycle, Memory.fetch_loadImmediate hb h, hr, hv]
      rfl
  | multiply =>
    obtain rfl | ⟨target, rfl⟩ := eq_nil_or_singleton_of_length_lt short
    · have ht : m.memory.read (m.pc + 1) = _ := hm
      rw [cycle, Memory.fetch_multiply hb h, ht]
      rfl
    · have ht : m.memory.read (m.pc + 1) = .ok target := Memory.read_append [byte] hc
      have hs : m.memory.read (m.pc + 2) = _ := hm
      rw [cycle, Memory.fetch_multiply hb h, ht, hs]
      rfl

theorem Machine.cycle_badRegister {m : Machine} {byte index : UInt8} {operands : List UInt8}
    {operation : Operation} (hc : m.memory.cellsFrom m.pc = byte :: operands)
    (h : Operation.ofByte? byte = some operation)
    (complete : operation.operandCount ≤ operands.length)
    (first : (operands.take operation.registerOperands).find? (registerCount ≤ ·.toNat) =
      some index) :
    m.cycle = .error (.registerOutOfBounds index) := by
  have hb : m.memory.read m.pc = .ok byte := Memory.read_append [] hc
  cases operation with
  | add => exact (Operation.ne_add_of_ofByte? h rfl).elim
  | halt => simp [Operation.registerOperands] at first
  | print =>
    obtain ⟨register, rest, rfl⟩ := List.exists_cons_of_length_pos complete
    have hr : m.memory.read (m.pc + 1) = .ok register := Memory.read_append [byte] hc
    obtain ⟨hi, rfl⟩ : registerCount ≤ register.toNat ∧ register = index := by
      simpa [Operation.registerOperands] using first
    rw [cycle, Memory.fetch_print hb h, hr]
    show m.execute (.print register) = _
    rw [execute, Registers.read_of_le hi]
    rfl
  | loadImmediate =>
    obtain ⟨register, value, rest, rfl⟩ := exists_eq_cons_cons_of_le_length complete
    have hr : m.memory.read (m.pc + 1) = .ok register := Memory.read_append [byte] hc
    have hv : m.memory.read (m.pc + 2) = .ok value := Memory.read_append [byte, register] hc
    obtain ⟨hi, rfl⟩ : registerCount ≤ register.toNat ∧ register = index := by
      simpa [Operation.registerOperands] using first
    rw [cycle, Memory.fetch_loadImmediate hb h, hr, hv]
    show m.execute (.loadImmediate register value) = _
    rw [execute, Registers.write_of_le value hi]
    rfl
  | multiply =>
    obtain ⟨target, source, rest, rfl⟩ := exists_eq_cons_cons_of_le_length complete
    have ht : m.memory.read (m.pc + 1) = .ok target := Memory.read_append [byte] hc
    have hs : m.memory.read (m.pc + 2) = .ok source := Memory.read_append [byte, target] hc
    rw [cycle, Memory.fetch_multiply hb h, ht, hs]
    show m.execute (.arithmetic .multiply target source) = _
    by_cases hi : registerCount ≤ target.toNat
    · obtain rfl : target = index := by simpa [Operation.registerOperands, hi] using first
      rw [execute, Registers.apply_of_target_le _ _ hi]
      rfl
    · obtain ⟨hj, rfl⟩ : registerCount ≤ source.toNat ∧ source = index := by
        simpa [Operation.registerOperands, hi] using first
      rw [execute, ← Register.byte_mk (Nat.lt_of_not_le hi), Registers.apply_of_source_le _ _ hj]
      rfl

def Machine.afterItems (m : Machine) (items : List Item) : Machine :=
  items.foldl (fun m i => i.next m) m

def Machine.itemHistory (m : Machine) : List Item → History
  | [] => []
  | i :: items => (m, i.effect m) :: (i.next m).itemHistory items

theorem Machine.execution_items {m : Machine} {items : List Item} {rest : List UInt8}
    (running : m.status = .running)
    (h : m.memory.cellsFrom m.pc = items.flatMap Item.cells ++ rest) :
    Execution m (m.itemHistory items) (m.afterItems items) := by
  induction items generalizing m with
  | nil => exact .refl m
  | cons i items ih =>
    rw [List.flatMap_cons, List.append_assoc] at h
    exact .cycle running (cycle_item h) (ih running (Memory.cellsFrom_add h))

theorem Machine.afterItems_eq (m : Machine) (items : List Item) :
    m.afterItems items =
      { m with
        registers := (carryOut items m.registers).1
        pc := m.pc + (items.flatMap Item.cells).length } := by
  induction items generalizing m with
  | nil => rfl
  | cons i items ih =>
    rw [afterItems, List.foldl_cons, ← afterItems, ih, carryOut_cons]
    simp only [Item.next, Item.size, List.flatMap_cons, List.length_append, Nat.add_assoc]

theorem Machine.output_itemHistory (m : Machine) (items : List Item) :
    (m.itemHistory items).output = (carryOut items m.registers).2 := by
  induction items generalizing m with
  | nil => rfl
  | cons i items ih =>
    have hi : (i.effect m).output = i.output m.registers := by
      cases i with
      | print register => exact (Item.output_print register m.registers).symm
      | unknown | loadImmediate | multiply => rfl
    have hn : (i.next m).registers = i.update m.registers := rfl
    rw [carryOut_cons, ← hi, ← hn, ← ih]
    rfl

theorem Machine.ofSteps_itemHistory (m : Machine) (items : List Item) :
    (m.itemHistory items).steps.length = items.length ∧
      (m.itemHistory items).steps.filterMap Step.skipped? = skippedAt m.pc items := by
  induction items generalizing m with
  | nil => exact ⟨rfl, rfl⟩
  | cons i items ih =>
    obtain ⟨hl, hs⟩ := ih (i.next m)
    have hp : (i.next m).pc = m.pc + i.size := rfl
    rw [hp] at hs
    refine ⟨congrArg (· + 1) hl, ?_⟩
    cases i with
    | unknown byte noOpcode => exact congrArg ((m.pc, byte) :: ·) hs
    | loadImmediate | multiply | print => exact hs

def Ending.fault? (e : Ending) (stop size : Nat) : Option Fault :=
  match e with
  | .halt => none
  | .missing offset => some (.memoryOutOfBounds (stop + offset) size)
  | .badRegister index => some (.registerOutOfBounds index)

theorem Machine.cycle_of_fault? {m : Machine} {e : Ending} {fault : Fault}
    (hs : e.StandsAt (m.memory.cellsFrom m.pc))
    (hf : e.fault? m.pc m.memory.size = some fault) : m.cycle = .error fault := by
  generalize hc : m.memory.cellsFrom m.pc = cells at hs
  cases hs with
  | halt h => cases hf
  | noOpcode =>
    cases hf
    exact cycle_noOpcode hc
  | noOperand h short =>
    cases hf
    exact cycle_missing hc h short
  | badRegister h complete first =>
    cases hf
    exact cycle_badRegister hc h complete first

/-- All that a cycle can come to, by the cells from the program counter on. -/
inductive Machine.Cycled (m : Machine) : Except Fault (Effect × Machine) → Prop
  | item {i : Item} {rest : List UInt8} (cells : m.memory.cellsFrom m.pc = i.cells ++ rest) :
      Cycled m (.ok (i.effect m, i.next m))
  | halt {byte : UInt8} {rest : List UInt8} (cells : m.memory.cellsFrom m.pc = byte :: rest)
      (h : Operation.ofByte? byte = some .halt) :
      Cycled m (.ok (.halted m.pc, { m with status := .halted }))
  | failed {e : Ending} {fault : Fault} (stands : e.StandsAt (m.memory.cellsFrom m.pc))
      (h : e.fault? m.pc m.memory.size = some fault) : Cycled m (.error fault)

theorem Machine.cycled (m : Machine) : m.Cycled m.cycle := by
  cases h : Item.ofCells (m.memory.cellsFrom m.pc) with
  | ok i =>
    obtain ⟨rest, hc⟩ := Item.append_of_ofCells h
    rw [cycle_item hc]
    exact .item hc
  | error e =>
    have hs := Ending.standsAt_of_ofCells h
    cases hf : e.fault? m.pc m.memory.size with
    | some fault =>
      rw [cycle_of_fault? hs hf]
      exact .failed hs hf
    | none =>
      generalize hc : m.memory.cellsFrom m.pc = cells at hs
      cases hs with
      | halt hb =>
        rw [cycle_halt hc hb]
        exact .halt hc hb
      | noOpcode | noOperand | badRegister => cases hf

theorem Machine.cycle_ne_outputClosed (m : Machine) : m.cycle ≠ .error .outputClosed := by
  intro h
  have hc := m.cycled
  rw [h] at hc
  cases hc with
  | @failed e _ _ hf => cases e <;> cases hf

def Machine.swept (m : Machine) (s : Sweep) : Machine :=
  { m.afterItems s.items with status := s.ending.status }

def Machine.sweptHistory (m : Machine) (s : Sweep) : History :=
  match s.ending with
  | .halt => m.itemHistory s.items ++ [(m.afterItems s.items, .halted (m.afterItems s.items).pc)]
  | .missing _ | .badRegister _ => m.itemHistory s.items

theorem Machine.execution_swept {m : Machine} {s : Sweep} (running : m.status = .running)
    (h : s.Cuts (m.memory.cellsFrom m.pc)) :
    Execution m (m.sweptHistory s) (m.swept s) ∧
      (m.swept s).Stops (s.ending.fault? (m.swept s).pc m.memory.size) := by
  obtain ⟨items, ending⟩ := s
  obtain ⟨rest, hc, hs⟩ := h
  have he := execution_items running hc
  have hn := m.afterItems_eq items
  have hl := Memory.cellsFrom_add hc
  have hr : (m.afterItems items).status = .running := by rw [hn, running]
  have hm : (m.afterItems items).memory = m.memory := by rw [hn]
  have hrest : (m.afterItems items).memory.cellsFrom (m.afterItems items).pc = rest := by
    rw [hn]
    exact hl
  cases ending with
  | halt =>
    cases hs with
    | halt h => exact ⟨he.append (.cycle hr (cycle_halt hrest h) (.refl _)), .halted rfl⟩
  | missing | badRegister =>
    have hsw : { m.afterItems items with status := .running } = m.afterItems items := by
      rw [← hr]
    rw [swept, sweptHistory, Ending.status, hsw]
    exact ⟨he, .failing hr (cycle_of_fault? (hrest ▸ hs) (by rw [hm]; rfl))⟩

theorem Machine.ofSteps_sweptHistory (m : Machine) {s : Sweep} (halt : s.ending = .halt) :
    Summary.ofSteps (m.sweptHistory s).steps =
      ⟨s.items.length + 1, (skippedAt m.pc s.items).toArray⟩ := by
  obtain ⟨hl, hs⟩ := m.ofSteps_itemHistory s.items
  rw [sweptHistory, halt]
  simp only [History.steps, List.map_append, Summary.ofSteps, List.length_append,
    List.filterMap_append] at hl hs ⊢
  rw [hl, hs]
  simp [Effect.step, Step.skipped?]

theorem Machine.skipped_sweptHistory (m : Machine) (s : Sweep) :
    (m.sweptHistory s).steps.filterMap Step.skipped? = skippedAt m.pc s.items := by
  obtain ⟨-, hs⟩ := m.ofSteps_itemHistory s.items
  rw [sweptHistory]
  cases s.ending with
  | halt =>
    rw [History.steps_append, List.filterMap_append, hs]
    exact List.append_nil _
  | missing | badRegister => exact hs

theorem Machine.output_sweptHistory (m : Machine) (s : Sweep) :
    (m.sweptHistory s).output = (carryOut s.items m.registers).2 := by
  have hi := m.output_itemHistory s.items
  rw [sweptHistory]
  cases s.ending with
  | halt => rw [History.output_append, hi, History.output_singleton, Effect.output, List.append_nil]
  | missing | badRegister => exact hi

theorem Machine.swept_eq (m : Machine) (s : Sweep) :
    m.swept s =
      ⟨(carryOut s.items m.registers).1, m.pc + s.length, m.memory, s.ending.status⟩ := by
  rw [swept, afterItems_eq]
  rfl

theorem Machine.run_of_cuts {m : Machine} {c : Console} {s : Sweep} (running : m.status = .running)
    (h : s.Cuts (m.memory.cellsFrom m.pc)) (fits : c.sink.Fits (carryOut s.items m.registers).2) :
    (m.run c).result = s.result m.pc m.memory.size ∧
      (m.run c).machine = m.swept s ∧
      (m.run c).console.sink = c.sink.offer (carryOut s.items m.registers).2 := by
  obtain ⟨he, hs⟩ := execution_swept running h
  rw [← m.output_sweptHistory] at fits ⊢
  have hpc : (m.swept s).pc = m.pc + s.length := by rw [swept_eq]
  refine ⟨?_, ?_, ?_⟩
  · rw [he.run_eq hs fits, hpc]
    simp only [finish, Sweep.result]
    cases hending : s.ending with
    | halt => exact congrArg _ (m.ofSteps_sweptHistory hending)
    | missing | badRegister => rfl
  · rw [he.run_eq hs fits]
    rfl
  · rw [he.run_eq hs fits, sink_finish, Console.sink_follow]

/-- A run with a sink that takes all output, from any cell of any memory, is the sweep over the
cells from there on and then the fold of its items. These cells can be cut into no other items and
ending, and the run is a success just if the ending is a halt. -/
theorem Machine.run_eq_sweep {m : Machine} {c : Console} (running : m.status = .running)
    (unlimited : c.sink.room = none) :
    let cells := m.memory.cellsFrom m.pc
    let s := sweep cells
    let done := carryOut s.items m.registers
    let ran := m.run c
    (∀ s' : Sweep, s'.Cuts cells ↔ s' = s) ∧
      ran.result = s.result m.pc m.memory.size ∧
      ran.machine = ⟨done.1, m.pc + s.length, m.memory, s.ending.status⟩ ∧
      ran.console.sink.accepted.toList = c.sink.accepted.toList ++ done.2 := by
  intro cells s done ran
  have fits : c.sink.Fits done.2 := Sink.fits_of_unlimited unlimited done.2
  obtain ⟨hr, hm, ho⟩ := run_of_cuts running (sweep_cuts cells) fits
  refine ⟨fun s' => ?_, hr, ?_, ?_⟩
  · rw [← sweep_eq_iff]
    exact eq_comm
  · rw [← swept_eq]
    exact hm
  · rw [ho, Sink.accepted_offer_of_fits fits]

/-- An operand that looks like a halt, a byte that is no opcode, and an instruction that the end of
memory cuts off. -/
theorem Machine.run_eq_sweep_cut_off :
    let m : Machine := ⟨.zero, 1, ⟨#[0x01, 0x82, 3, 0x01, 0xFF, 0x47, 3, 0xA2, 3]⟩, .running⟩
    let ran := m.run ⟨.unlimited, .empty .off⟩
    m.status = .running ∧ Sink.unlimited.room = none ∧
      ran.result = .error (.memoryOutOfBounds 9 9) ∧ ran.machine.pc = 7 ∧
      ran.console.sink.accepted.toList = [0x31, 0x0A] := by
  intro m ran
  obtain ⟨-, hr, hm, ho⟩ := @run_eq_sweep m ⟨.unlimited, .empty .off⟩ rfl rfl
  refine ⟨rfl, rfl, hr.trans ?_, ?_, ho.trans ?_⟩
  · decide +kernel
  · rw [hm]
    decide +kernel
  · decide +kernel

end LS8
