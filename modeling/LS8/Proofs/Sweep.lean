import LS8.Proofs.RegisterFile
import LS8.Instruction

/-! The linear sweep. A row of cells is cut into items from its front on, without a look at what the
registers hold: a byte that is no opcode is an item, and so is an instruction that names registers
which exist. The sweep ends at a halt, where a cell is missing, or where a register does not
exist. -/

namespace LS8

theorem Operation.mem_opcodes_of_ofByte? {byte : UInt8} {operation : Operation}
    (h : Operation.ofByte? byte = some operation) : (byte, operation) ∈ opcodes := by
  obtain ⟨_, _, he, _⟩ := List.lookup_eq_some_iff.mp h
  rw [he]
  simp

/-- No byte asks for an addition. -/
theorem Operation.ne_add_of_ofByte? {byte : UInt8} {operation : Operation}
    (h : Operation.ofByte? byte = some operation) : operation ≠ .add := by
  rintro rfl
  simpa [opcodes] using Operation.mem_opcodes_of_ofByte? h

/-- How many operands of an operation name registers; they come before the other operands. -/
def Operation.registerOperands : Operation → Nat
  | .halt => 0
  | .print | .loadImmediate => 1
  | .add | .multiply => 2

theorem Operation.registerOperands_le (operation : Operation) :
    operation.registerOperands ≤ operation.operandCount := by
  cases operation <;> decide

/-- A piece of memory from one end of an instruction to the next. -/
inductive Item where
  | unknown (byte : UInt8) (noOpcode : Operation.ofByte? byte = none)
  | loadImmediate (register : Register) (value : UInt8)
  | multiply (target source : Register)
  | print (register : Register)
deriving DecidableEq

def Item.cells : Item → List UInt8
  | .unknown byte _ => [byte]
  | .loadImmediate register value => [0x82, register.byte, value]
  | .multiply target source => [0xA2, target.byte, source.byte]
  | .print register => [0x47, register.byte]

def Item.size (i : Item) : Nat := i.cells.length

theorem Item.size_pos (i : Item) : 0 < i.size := by
  cases i <;> exact Nat.succ_pos _

inductive Ending where
  | halt
  /-- A cell is missing, so many places behind the last item. -/
  | missing (offset : Nat)
  | badRegister (index : UInt8)
deriving DecidableEq

/-- An ending stands at the front of a row of cells. -/
inductive Ending.StandsAt : Ending → List UInt8 → Prop
  | halt {byte : UInt8} {cells : List UInt8} (h : Operation.ofByte? byte = some .halt) :
      StandsAt .halt (byte :: cells)
  | noOpcode : StandsAt (.missing 0) []
  /-- The lowest missing cell is the one behind the operands that are there. -/
  | noOperand {byte : UInt8} {operands : List UInt8} {operation : Operation}
      (h : Operation.ofByte? byte = some operation)
      (short : operands.length < operation.operandCount) :
      StandsAt (.missing (1 + operands.length)) (byte :: operands)
  /-- All operands are there, and `index` is the first of them that should name a register and
  does not. -/
  | badRegister {byte index : UInt8} {cells : List UInt8} {operation : Operation}
      (h : Operation.ofByte? byte = some operation)
      (complete : operation.operandCount ≤ cells.length)
      (first : (cells.take operation.registerOperands).find? (registerCount ≤ ·.toNat) =
        some index) :
      StandsAt (.badRegister index) (byte :: cells)

def Register.ofByte (index : UInt8) : Except Ending Register :=
  if h : index.toNat < registerCount then .ok ⟨index.toNat, h⟩ else .error (.badRegister index)

theorem Register.ofByte_of_lt {index : UInt8} (h : index.toNat < registerCount) :
    Register.ofByte index = .ok ⟨index.toNat, h⟩ := dif_pos h

theorem Register.ofByte_of_le {index : UInt8} (h : registerCount ≤ index.toNat) :
    Register.ofByte index = .error (.badRegister index) := by
  rw [Register.ofByte, dif_neg (by omega)]

theorem Register.ofByte_byte (i : Register) : Register.ofByte i.byte = .ok i := by
  simp only [Register.ofByte, i.toNat_byte]
  exact dif_pos i.isLt

theorem Register.byte_of_ofByte {index : UInt8} {i : Register} (h : Register.ofByte index = .ok i) :
    i.byte = index := by
  unfold Register.ofByte at h
  split at h
  · cases h
    exact Register.byte_mk _
  · cases h

theorem Register.ofByte_eq_error {index : UInt8} {ending : Ending}
    (h : Register.ofByte index = .error ending) :
    registerCount ≤ index.toNat ∧ ending = .badRegister index := by
  unfold Register.ofByte at h
  split at h
  · cases h
  · cases h
    exact ⟨by omega, rfl⟩

/-- The item that an operation makes up with its operands, or the ending if there is none. -/
def Item.ofOperands (operation : Operation) (decoded : operation ≠ .add) (operands : List UInt8) :
    Except Ending Item :=
  match operation, operands with
  | .halt, _ => .error .halt
  | .print, register :: _ => return .print (← Register.ofByte register)
  | .loadImmediate, register :: value :: _ =>
    return .loadImmediate (← Register.ofByte register) value
  | .multiply, target :: source :: _ => do
    let target ← Register.ofByte target
    return .multiply target (← Register.ofByte source)
  | .add, _ => (decoded rfl).elim
  | .print, short | .loadImmediate, short | .multiply, short => .error (.missing (1 + short.length))

def Item.ofCells : List UInt8 → Except Ending Item
  | [] => .error (.missing 0)
  | byte :: operands =>
    match h : Operation.ofByte? byte with
    | none => .ok (.unknown byte h)
    | some operation => Item.ofOperands operation (Operation.ne_add_of_ofByte? h) operands

theorem Item.ofCells_of_none {byte : UInt8} (h : Operation.ofByte? byte = none)
    (operands : List UInt8) : Item.ofCells (byte :: operands) = .ok (.unknown byte h) := by
  rw [Item.ofCells]
  split
  · rfl
  · rename_i he
    cases h.symm.trans he

theorem Item.ofCells_of_some {byte : UInt8} {operation : Operation}
    (h : Operation.ofByte? byte = some operation) (decoded : operation ≠ .add)
    (operands : List UInt8) :
    Item.ofCells (byte :: operands) = Item.ofOperands operation decoded operands := by
  rw [Item.ofCells]
  split
  · rename_i he
    cases h.symm.trans he
  · rename_i he
    cases h.symm.trans he
    rfl

theorem Item.ofCells_append (item : Item) (rest : List UInt8) :
    Item.ofCells (item.cells ++ rest) = .ok item := by
  cases item with
  | unknown byte noOpcode => exact ofCells_of_none noOpcode rest
  | loadImmediate register value =>
    have h : Operation.ofByte? 0x82 = some .loadImmediate := rfl
    rw [cells, List.cons_append, ofCells_of_some h nofun]
    simp only [List.cons_append, ofOperands, Register.ofByte_byte]
    rfl
  | multiply target source =>
    have h : Operation.ofByte? 0xA2 = some .multiply := rfl
    rw [cells, List.cons_append, ofCells_of_some h nofun]
    simp only [List.cons_append, ofOperands, Register.ofByte_byte]
    rfl
  | print register =>
    have h : Operation.ofByte? 0x47 = some .print := rfl
    rw [cells, List.cons_append, ofCells_of_some h nofun]
    simp only [List.cons_append, ofOperands, Register.ofByte_byte]
    rfl

theorem Item.append_of_ofOperands {byte : UInt8} {operation : Operation}
    {decoded : operation ≠ .add} {operands : List UInt8} {item : Item}
    (hb : Operation.ofByte? byte = some operation)
    (h : Item.ofOperands operation decoded operands = .ok item) :
    ∃ rest, byte :: operands = item.cells ++ rest := by
  have hm := Operation.mem_opcodes_of_ofByte? hb
  cases operation with
  | add => exact (decoded rfl).elim
  | halt => cases h
  | print =>
    obtain rfl : byte = 0x47 := by simpa [opcodes] using hm
    match operands, h with
    | index :: rest, h =>
      obtain ⟨register, hr, h⟩ := eq_ok_of_bind_eq_ok h
      cases h
      exact ⟨rest, by simp [cells, Register.byte_of_ofByte hr]⟩
  | loadImmediate =>
    obtain rfl : byte = 0x82 := by simpa [opcodes] using hm
    match operands, h with
    | index :: value :: rest, h =>
      obtain ⟨register, hr, h⟩ := eq_ok_of_bind_eq_ok h
      cases h
      exact ⟨rest, by simp [cells, Register.byte_of_ofByte hr]⟩
  | multiply =>
    obtain rfl : byte = 0xA2 := by simpa [opcodes] using hm
    match operands, h with
    | first :: second :: rest, h =>
      obtain ⟨target, ht, h⟩ := eq_ok_of_bind_eq_ok h
      obtain ⟨source, hs, h⟩ := eq_ok_of_bind_eq_ok h
      cases h
      exact ⟨rest, by simp [cells, Register.byte_of_ofByte ht, Register.byte_of_ofByte hs]⟩

theorem Item.append_of_ofCells {cells : List UInt8} {item : Item}
    (h : Item.ofCells cells = .ok item) : ∃ rest, cells = item.cells ++ rest := by
  cases cells with
  | nil => cases h
  | cons byte operands =>
    cases hb : Operation.ofByte? byte with
    | none =>
      rw [ofCells_of_none hb] at h
      cases h
      exact ⟨operands, rfl⟩
    | some operation =>
      rw [ofCells_of_some hb (Operation.ne_add_of_ofByte? hb)] at h
      exact append_of_ofOperands hb h

theorem eq_nil_or_singleton_of_length_lt {operands : List UInt8} (h : operands.length < 2) :
    operands = [] ∨ ∃ first, operands = [first] := by
  rcases operands with _ | ⟨first, _ | ⟨second, rest⟩⟩
  · exact .inl rfl
  · exact .inr ⟨first, rfl⟩
  · simp only [List.length_cons] at h
    omega

theorem exists_eq_cons_cons_of_le_length {operands : List UInt8} (h : 2 ≤ operands.length) :
    ∃ first second rest, operands = first :: second :: rest := by
  rcases operands with _ | ⟨first, _ | ⟨second, rest⟩⟩
  · cases h
  · simp at h
  · exact ⟨first, second, rest, rfl⟩

theorem Item.ofOperands_of_short {operation : Operation} {decoded : operation ≠ .add}
    {operands : List UInt8} (short : operands.length < operation.operandCount) :
    Item.ofOperands operation decoded operands = .error (.missing (1 + operands.length)) := by
  cases operation with
  | add => exact (decoded rfl).elim
  | halt => simp [Operation.operandCount] at short
  | print =>
    obtain rfl := List.eq_nil_of_length_eq_zero (Nat.lt_one_iff.mp short)
    rfl
  | loadImmediate | multiply =>
    obtain rfl | ⟨first, rfl⟩ := eq_nil_or_singleton_of_length_lt short <;> rfl

theorem Item.ofOperands_of_badRegister {operation : Operation} {decoded : operation ≠ .add}
    {index : UInt8} {operands : List UInt8}
    (complete : operation.operandCount ≤ operands.length)
    (first : (operands.take operation.registerOperands).find? (registerCount ≤ ·.toNat) =
      some index) :
    Item.ofOperands operation decoded operands = .error (.badRegister index) := by
  cases operation with
  | add => exact (decoded rfl).elim
  | halt => simp [Operation.registerOperands] at first
  | print =>
    obtain ⟨register, rest, rfl⟩ := List.exists_cons_of_length_pos complete
    obtain ⟨hi, rfl⟩ : registerCount ≤ register.toNat ∧ register = index := by
      simpa [Operation.registerOperands] using first
    simp only [Item.ofOperands, Register.ofByte_of_le hi]
    rfl
  | loadImmediate =>
    obtain ⟨register, value, rest, rfl⟩ := exists_eq_cons_cons_of_le_length complete
    obtain ⟨hi, rfl⟩ : registerCount ≤ register.toNat ∧ register = index := by
      simpa [Operation.registerOperands] using first
    simp only [Item.ofOperands, Register.ofByte_of_le hi]
    rfl
  | multiply =>
    obtain ⟨target, source, rest, rfl⟩ := exists_eq_cons_cons_of_le_length complete
    by_cases ht : registerCount ≤ target.toNat
    · obtain rfl : target = index := by simpa [Operation.registerOperands, ht] using first
      simp only [Item.ofOperands, Register.ofByte_of_le ht]
      rfl
    · obtain ⟨hs, rfl⟩ : registerCount ≤ source.toNat ∧ source = index := by
        simpa [Operation.registerOperands, ht] using first
      have ht' := Register.ofByte_of_lt (Nat.lt_of_not_le ht)
      simp only [Item.ofOperands, ht', Register.ofByte_of_le hs]
      rfl

theorem Ending.ofCells_of_standsAt {ending : Ending} {cells : List UInt8}
    (h : ending.StandsAt cells) : Item.ofCells cells = .error ending := by
  cases h with
  | halt h =>
    rw [Item.ofCells_of_some h nofun]
    rfl
  | noOpcode => rfl
  | noOperand h short =>
    rw [Item.ofCells_of_some h (Operation.ne_add_of_ofByte? h), Item.ofOperands_of_short short]
  | badRegister h complete first =>
    rw [Item.ofCells_of_some h (Operation.ne_add_of_ofByte? h),
      Item.ofOperands_of_badRegister complete first]

theorem Ending.standsAt_of_ofOperands {byte : UInt8} {operation : Operation}
    {decoded : operation ≠ .add} {operands : List UInt8} {ending : Ending}
    (hb : Operation.ofByte? byte = some operation)
    (h : Item.ofOperands operation decoded operands = .error ending) :
    ending.StandsAt (byte :: operands) := by
  cases operation with
  | add => exact (decoded rfl).elim
  | halt =>
    cases h
    exact .halt hb
  | print =>
    match operands, h with
    | [], h =>
      cases h
      exact .noOperand hb Nat.zero_lt_one
    | index :: rest, h =>
      obtain h | ⟨_, _, h⟩ := error_or_ok_of_bind_eq_error h
      · obtain ⟨hi, rfl⟩ := Register.ofByte_eq_error h
        exact .badRegister hb (by simp [Operation.operandCount])
          (by simp [Operation.registerOperands, hi])
      · cases h
  | loadImmediate =>
    match operands, h with
    | [], h | [_], h =>
      cases h
      exact .noOperand hb (by simp [Operation.operandCount])
    | index :: value :: rest, h =>
      obtain h | ⟨_, _, h⟩ := error_or_ok_of_bind_eq_error h
      · obtain ⟨hi, rfl⟩ := Register.ofByte_eq_error h
        exact .badRegister hb (by simp [Operation.operandCount])
          (by simp [Operation.registerOperands, hi])
      · cases h
  | multiply =>
    match operands, h with
    | [], h | [_], h =>
      cases h
      exact .noOperand hb (by simp [Operation.operandCount])
    | first :: second :: rest, h =>
      obtain h | ⟨target, ht, h⟩ := error_or_ok_of_bind_eq_error h
      · obtain ⟨hi, rfl⟩ := Register.ofByte_eq_error h
        exact .badRegister hb (by simp [Operation.operandCount])
          (by simp [Operation.registerOperands, hi])
      · obtain h | ⟨_, _, h⟩ := error_or_ok_of_bind_eq_error h
        · obtain ⟨hi, rfl⟩ := Register.ofByte_eq_error h
          have hl : first.toNat < registerCount := by
            rw [← Register.byte_of_ofByte ht]
            exact Nat.lt_of_not_le target.not_le_toNat_byte
          exact .badRegister hb (by simp [Operation.operandCount])
            (by simp [Operation.registerOperands, hi, hl])
        · cases h

theorem Ending.standsAt_of_ofCells {cells : List UInt8} {ending : Ending}
    (h : Item.ofCells cells = .error ending) : ending.StandsAt cells := by
  cases cells with
  | nil =>
    cases h
    exact .noOpcode
  | cons byte operands =>
    cases hb : Operation.ofByte? byte with
    | none =>
      rw [Item.ofCells_of_none hb] at h
      cases h
    | some operation =>
      rw [Item.ofCells_of_some hb (Operation.ne_add_of_ofByte? hb)] at h
      exact standsAt_of_ofOperands hb h

theorem Item.drop_size_append (item : Item) (rest : List UInt8) :
    (item.cells ++ rest).drop item.size = rest := List.drop_left

theorem Item.length_sub_size_lt {cells : List UInt8} {item : Item}
    (h : Item.ofCells cells = .ok item) : cells.length - item.size < cells.length := by
  obtain ⟨rest, rfl⟩ := append_of_ofCells h
  have hp : 0 < item.cells.length := item.size_pos
  simp only [size, List.length_append]
  omega

structure Sweep where
  items : List Item
  ending : Ending
deriving DecidableEq

def sweep (cells : List UInt8) : Sweep :=
  match h : Item.ofCells cells with
  | .error ending => ⟨[], ending⟩
  | .ok item =>
    have := Item.length_sub_size_lt h
    let rest := sweep (cells.drop item.size)
    ⟨item :: rest.items, rest.ending⟩
termination_by cells.length

/-- The items of a sweep follow one another from the front of a row of cells on, without a gap, and
its ending stands right behind the last of them. -/
def Sweep.Cuts (s : Sweep) (cells : List UInt8) : Prop :=
  ∃ rest, cells = s.items.flatMap Item.cells ++ rest ∧ s.ending.StandsAt rest

theorem sweep_of_standsAt {ending : Ending} {cells : List UInt8} (h : ending.StandsAt cells) :
    sweep cells = ⟨[], ending⟩ := by
  unfold sweep
  split <;> rename_i he <;> cases (Ending.ofCells_of_standsAt h).symm.trans he
  rfl

theorem sweep_append (item : Item) (rest : List UInt8) :
    sweep (item.cells ++ rest) = ⟨item :: (sweep rest).items, (sweep rest).ending⟩ := by
  conv => lhs; unfold sweep
  split <;> rename_i he <;> cases (item.ofCells_append rest).symm.trans he
  simp only [item.drop_size_append]

theorem Sweep.Cuts.sweep_eq {s : Sweep} {cells : List UInt8} (h : s.Cuts cells) :
    sweep cells = s := by
  obtain ⟨items, ending⟩ := s
  obtain ⟨rest, rfl, hs⟩ := h
  induction items with
  | nil => exact sweep_of_standsAt hs
  | cons item items ih =>
    rw [List.flatMap_cons, List.append_assoc, sweep_append, ih hs]

theorem sweep_cuts (cells : List UInt8) : (sweep cells).Cuts cells := by
  induction cells using sweep.induct with
  | case1 cells ending hc =>
    have hs := Ending.standsAt_of_ofCells hc
    rw [sweep_of_standsAt hs]
    exact ⟨cells, rfl, hs⟩
  | case2 cells item hc _ ih =>
    obtain ⟨rest, rfl⟩ := Item.append_of_ofCells hc
    rw [item.drop_size_append] at ih
    obtain ⟨behind, he, hs⟩ := ih
    rw [sweep_append]
    refine ⟨behind, ?_, hs⟩
    rw [List.flatMap_cons, List.append_assoc, ← he]

/-- A row of cells is cut in just one way. -/
theorem sweep_eq_iff {cells : List UInt8} {s : Sweep} : sweep cells = s ↔ s.Cuts cells := by
  constructor
  · rintro rfl
    exact sweep_cuts cells
  · exact Sweep.Cuts.sweep_eq

end LS8
