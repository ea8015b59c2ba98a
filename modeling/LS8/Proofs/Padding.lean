import LS8.Proofs.RunLog
import LS8.Proofs.SweepRun

/-! Programs in memories of different sizes. Behind a program memory holds zeros, and zero is no
opcode. An instruction that the program leaves unfinished takes at most two of them, and a sweep that
gets past it goes on to the end of memory. -/

namespace LS8

theorem Operation.operandCount_le (operation : Operation) : operation.operandCount ≤ 2 := by
  cases operation <;> decide

theorem Ending.StandsAt.opcode {ending : Ending} {byte : UInt8} {cells : List UInt8}
    (h : ending.StandsAt (byte :: cells)) : ∃ operation, Operation.ofByte? byte = some operation := by
  cases h with
  | halt h | noOperand h | badRegister h => exact ⟨_, h⟩

theorem Ending.StandsAt.not_missing {ending : Ending} {byte : UInt8} {cells : List UInt8}
    (h : ending.StandsAt (byte :: cells)) (long : 2 ≤ cells.length) (offset : Nat) :
    ending ≠ .missing offset := by
  rintro rfl
  cases h with
  | @noOperand _ _ operation _ short =>
    have := operation.operandCount_le
    omega

/-- More cells behind an ending make no difference, unless it is for want of them. -/
theorem Ending.StandsAt.append {ending : Ending} {cells : List UInt8} (h : ending.StandsAt cells)
    (enough : ∀ offset, ending ≠ .missing offset) (more : List UInt8) :
    ending.StandsAt (cells ++ more) := by
  cases h with
  | halt h => exact .halt h
  | noOpcode | noOperand => exact (enough _ rfl).elim
  | @badRegister byte index operands operation h complete first =>
    have named : operation.registerOperands ≤ operands.length :=
      Nat.le_trans operation.registerOperands_le complete
    refine .badRegister h ?_ ?_
    · show _ ≤ (operands ++ more).length
      rw [List.length_append]
      omega
    · rw [← first]
      exact congrArg _ (List.take_append_of_le_length named)

/-- An opcode in a program with two zeros behind it stands within the program. -/
theorem lt_length_of_opcode {front program tail : List UInt8} {byte : UInt8} {operation : Operation}
    (h : program ++ [0, 0] = front ++ byte :: tail)
    (opcode : Operation.ofByte? byte = some operation) :
    front.length < program.length ∧ 2 ≤ tail.length := by
  have lt : front.length < program.length := by
    rcases Nat.lt_or_ge front.length program.length with lt | ge
    · exact lt
    · -- else the opcode would be one of the two zeros
      obtain ⟨taken, rfl⟩ : program <+: front :=
        List.prefix_of_prefix_length_le ⟨_, h⟩ (List.prefix_append _ _) ge
      rw [List.append_assoc, List.append_cancel_left_eq] at h
      have hb : byte ∈ [0, 0] := by simp [h]
      obtain rfl : byte = 0 := by simpa using hb
      cases opcode
  have hl := congrArg List.length h
  simp only [List.length_append, List.length_cons, List.length_nil] at hl
  omega

/-- A sweep over a program and two zeros ends within the program, and more cells do not change it, or
its items take up all of them. -/
theorem sweep_padded (program : List UInt8) :
    (∃ s : Sweep, (∀ offset, s.ending ≠ .missing offset) ∧ s.length < program.length ∧
      ∀ more, s.Cuts (program ++ [0, 0] ++ more)) ∨
    ∃ items : List Item, items.flatMap Item.cells = program ++ [0, 0] := by
  obtain ⟨rest, hc, hs⟩ := sweep_cuts (program ++ [0, 0])
  generalize sweep (program ++ [0, 0]) = s at hc hs
  cases rest with
  | nil => exact .inr ⟨s.items, by rw [hc, List.append_nil]⟩
  | cons byte tail =>
    obtain ⟨operation, opcode⟩ := hs.opcode
    obtain ⟨lt, long⟩ := lt_length_of_opcode hc opcode
    have enough := hs.not_missing long
    refine .inl ⟨s, enough, lt, fun more => ⟨byte :: tail ++ more, ?_, hs.append enough more⟩⟩
    rw [hc, List.append_assoc]

def Item.zero : Item := .unknown 0 rfl

theorem flatMap_cells_replicate_zero (n : Nat) :
    (List.replicate n Item.zero).flatMap Item.cells = List.replicate n 0 := by
  induction n with
  | zero => rfl
  | succ n ih => rw [List.replicate_succ, List.flatMap_cons, ih]; rfl

theorem cuts_zeros {items : List Item} {cells : List UInt8}
    (h : items.flatMap Item.cells = cells) (n : Nat) :
    (Sweep.mk (items ++ List.replicate n .zero) (.missing 0)).Cuts
      (cells ++ List.replicate n 0) := by
  refine ⟨[], ?_, .noOpcode⟩
  rw [List.flatMap_append, h, flatMap_cells_replicate_zero, List.append_nil]

theorem carryOut_zeros (n : Nat) (r : Registers) :
    carryOut (List.replicate n .zero) r = (r, []) := by
  induction n with
  | zero => rfl
  | succ n ih =>
    have hz : carryOut (.zero :: List.replicate n .zero) r =
        ((carryOut (List.replicate n .zero) r).1, (carryOut (List.replicate n .zero) r).2) :=
      carryOut_cons .zero _ r
    rw [List.replicate_succ, hz, ih]

theorem skippedAt_zeros (address n : Nat) :
    skippedAt address (List.replicate n .zero) =
      (List.range' address n).map fun address => (address, 0) := by
  induction n generalizing address with
  | zero => rfl
  | succ n ih => exact congrArg ((address, 0) :: ·) (ih (address + 1))

def Memory.padded (image : Image) (size : Nat) : Memory :=
  ⟨(image ++ List.replicate (size - image.length) 0).toArray⟩

theorem Memory.size_padded {image : Image} {size : Nat} (le : image.length ≤ size) :
    (padded image size).size = size := by
  simp only [Memory.size, padded, List.size_toArray, List.length_append, List.length_replicate]
  omega

theorem Machine.ofSize_of_le {size : Nat} (le : minimumMemorySize ≤ size) :
    Machine.ofSize size = .ok (.ofMemory ⟨Array.replicate size 0⟩) := by
  rw [Machine.ofSize, Memory.ofSize_of_le le]
  rfl

theorem Memory.load_zeros {image : Image} {size : Nat} (le : image.length ≤ size) :
    load ⟨Array.replicate size 0⟩ image = (.ok (), padded image size) := by
  rw [load_of_le (by simpa [Memory.size] using le)]
  simp [padded]

theorem Machine.load_zeros {image : Image} {size : Nat} (le : image.length ≤ size) (c : Console) :
    (ofMemory ⟨Array.replicate size 0⟩).load image c =
      ⟨.ok (), ofMemory (.padded image size), c.note (.loaded image.length)⟩ := by
  simp only [load, ofMemory, Memory.load_zeros le]

theorem Memory.cellsFrom_padded {image : Image} {size : Nat} (le : image.length + 2 ≤ size) :
    (padded image size).cellsFrom 0 =
      image ++ [0, 0] ++ List.replicate (size - (image.length + 2)) 0 := by
  have split : size - image.length = 2 + (size - (image.length + 2)) := by omega
  rw [cellsFrom, padded, split, ← List.replicate_append_replicate, List.append_assoc]
  rfl

theorem Machine.warnings_of_cuts {m : Machine} {c : Console} {s : Sweep}
    (running : m.status = .running) (h : s.Cuts (m.memory.cellsFrom m.pc))
    (fits : c.sink.Fits (carryOut s.items m.registers).2) (warns : c.log.filter.Warns) :
    (m.run c).console.log.warnings = c.log.warnings ++ skippedAt m.pc s.items := by
  obtain ⟨he, hs⟩ := execution_swept running h
  rw [← m.output_sweptHistory] at fits
  rw [he.warnings_run hs fits warns, m.skipped_sweptHistory]

structure Sweep.Ran (s : Sweep) (size : Nat) (c : Console) (t : Turn Summary) : Prop where
  result : t.result = s.result 0 size
  registers : t.machine.registers = (carryOut s.items .zero).1
  pc : t.machine.pc = s.length
  sink : t.console.sink = c.sink.offer (carryOut s.items .zero).2
  warnings : c.log.filter.Warns →
    t.console.log.warnings = c.log.warnings ++ skippedAt 0 s.items

theorem Sweep.Cuts.ran {image : Image} {size : Nat} {c : Console} {s : Sweep}
    (le : image.length + 2 ≤ size) (unlimited : c.sink.room = none)
    (h : s.Cuts (image ++ [0, 0] ++ List.replicate (size - (image.length + 2)) 0)) :
    s.Ran size c ((Machine.ofMemory (.padded image size)).run c) := by
  rw [← Memory.cellsFrom_padded le] at h
  have fits := Sink.fits_of_unlimited unlimited (carryOut s.items .zero).2
  obtain ⟨hr, hm, ho⟩ := Machine.run_of_cuts (m := .ofMemory (.padded image size)) rfl h fits
  refine ⟨?_, ?_, ?_, ho, Machine.warnings_of_cuts rfl h fits⟩
  · rw [hr]
    show s.result 0 (Memory.padded image size).size = _
    rw [Memory.size_padded (by omega)]
  · rw [hm, Machine.swept_eq]
    rfl
  · rw [hm, Machine.swept_eq]
    exact Nat.zero_add _

/-- How the run in the larger memory compares with the one in the smaller. -/
inductive Turn.EndsAlike (length small large : Nat) (filter : Filter) (t t' : Turn Summary) : Prop
  | halted {summary : Summary} (result : t.result = .ok summary) (result' : t'.result = .ok summary)
      (inside : t.machine.pc < length) (pc : t'.machine.pc = t.machine.pc)
  | badRegister {index : UInt8} (result : t.result = .error (.registerOutOfBounds index))
      (result' : t'.result = .error (.registerOutOfBounds index))
      (inside : t.machine.pc < length) (pc : t'.machine.pc = t.machine.pc)
  | ranOut (result : t.result = .error (.memoryOutOfBounds small small))
      (result' : t'.result = .error (.memoryOutOfBounds large large))
      (pc : t.machine.pc = small) (pc' : t'.machine.pc = large)
      (warnings : filter.Warns → t'.console.log.warnings = t.console.log.warnings ++
        (List.range' small (large - small)).map fun address => (address, 0))

theorem Sweep.Ran.endsAlike {s : Sweep} {length small large : Nat} {c : Console} {t t' : Turn Summary}
    (h : s.Ran small c t) (h' : s.Ran large c t') (enough : ∀ offset, s.ending ≠ .missing offset)
    (inside : s.length < length) : t.EndsAlike length small large c.log.filter t' := by
  have hp : t'.machine.pc = t.machine.pc := h'.pc.trans h.pc.symm
  have hr := h.result
  have hr' := h'.result
  rw [← h.pc] at inside
  rw [Sweep.result] at hr hr'
  cases he : s.ending with
  | halt =>
    rw [he] at hr hr'
    exact .halted hr hr' inside hp
  | missing offset => exact (enough offset he).elim
  | badRegister index =>
    rw [he] at hr hr'
    exact .badRegister hr hr' inside hp

theorem Sweep.length_zeros {items : List Item} {image : Image} {size : Nat}
    (h : items.flatMap Item.cells = image ++ [0, 0]) (le : image.length + 2 ≤ size) :
    (Sweep.mk (items ++ List.replicate (size - (image.length + 2)) .zero) (.missing 0)).length =
      size := by
  simp only [Sweep.length, List.flatMap_append, h, flatMap_cells_replicate_zero,
    List.length_append, List.length_replicate, List.length_cons, List.length_nil]
  omega

theorem skippedAt_more_zeros {items : List Item} {image : Image} {small large : Nat}
    (h : items.flatMap Item.cells = image ++ [0, 0]) (enough : image.length + 2 ≤ small)
    (le : small ≤ large) :
    skippedAt 0 (items ++ List.replicate (large - (image.length + 2)) .zero) =
      skippedAt 0 (items ++ List.replicate (small - (image.length + 2)) .zero) ++
        (List.range' small (large - small)).map fun address => (address, 0) := by
  have split : large - (image.length + 2) = small - (image.length + 2) + (large - small) := by omega
  have hl := Sweep.length_zeros h enough
  rw [Sweep.length] at hl
  rw [split, ← List.replicate_append_replicate, ← List.append_assoc, skippedAt_append, hl,
    Nat.zero_add, skippedAt_zeros]

theorem Machine.run_padded {image : Image} {small large : Nat} {c : Console}
    (enough : image.length + 2 ≤ small) (le : small ≤ large) (unlimited : c.sink.room = none) :
    let ran := (ofMemory (.padded image small)).run c
    let ran' := (ofMemory (.padded image large)).run c
    ran'.machine.registers = ran.machine.registers ∧ ran'.console.sink = ran.console.sink ∧
      ran.EndsAlike image.length small large c.log.filter ran' := by
  have enough' : image.length + 2 ≤ large := Nat.le_trans enough le
  rcases sweep_padded image with ⟨s, sound, inside, cuts⟩ | ⟨items, h⟩
  · have ran := (cuts _).ran enough unlimited
    have ran' := (cuts _).ran enough' unlimited
    exact ⟨ran'.registers.trans ran.registers.symm, ran'.sink.trans ran.sink.symm,
      ran.endsAlike ran' sound inside⟩
  · have ran := (cuts_zeros h _).ran enough unlimited
    have ran' := (cuts_zeros h _).ran enough' unlimited
    have same (n : Nat) : carryOut (items ++ List.replicate n .zero) .zero = carryOut items .zero := by
      rw [carryOut_append, carryOut_zeros, List.append_nil]
    refine ⟨?_, ?_, .ranOut ?_ ?_ ?_ ?_ ?_⟩
    · rw [ran'.registers, ran.registers, same, same]
    · rw [ran'.sink, ran.sink, same, same]
    · rw [ran.result, Sweep.result, Sweep.length_zeros h enough, Nat.zero_add]
      rfl
    · rw [ran'.result, Sweep.result, Sweep.length_zeros h enough', Nat.zero_add]
      rfl
    · rw [ran.pc, Sweep.length_zeros h enough]
    · rw [ran'.pc, Sweep.length_zeros h enough']
    · intro warns
      rw [ran'.warnings warns, ran.warnings warns, skippedAt_more_zeros h enough le,
        List.append_assoc]

/-- A program run from two memories, of which the smaller one has at least two cells that the program
leaves free: the same registers and output, and the same end within the program, or both runs get past
it and warn of each zero up to the end of their memory. -/
theorem Machine.run_of_any_size {image : Image} {small large : Nat} {c : Console}
    (enough : max minimumMemorySize (image.length + 2) ≤ small) (le : small ≤ large)
    (unlimited : c.sink.room = none) :
    ∃ m n, Machine.ofSize small = .ok m ∧ Machine.ofSize large = .ok n ∧
      (m.load image c).result = .ok () ∧ (n.load image c).result = .ok () ∧
      let ran := (m.load image c).machine.run (m.load image c).console
      let ran' := (n.load image c).machine.run (n.load image c).console
      ran'.machine.registers = ran.machine.registers ∧ ran'.console.sink = ran.console.sink ∧
        ran.EndsAlike image.length small large c.log.filter ran' := by
  obtain ⟨least, room⟩ := Nat.max_le.mp enough
  refine ⟨_, _, ofSize_of_le least, ofSize_of_le (Nat.le_trans least le), ?_⟩
  rw [load_zeros (by omega), load_zeros (by omega),
    ← Log.filter_note c.log (.loaded image.length)]
  exact ⟨rfl, rfl, run_padded room le unlimited⟩

/-- A byte that is no opcode, a line and a halt; the larger memory is never looked at. -/
theorem Machine.run_of_any_size_halting :
    let image : Image := [0xFF, 0x47, 0, 0x01]
    let c : Console := ⟨.unlimited, .empty (.upTo .warn)⟩
    max minimumMemorySize (image.length + 2) ≤ 256 ∧ 256 ≤ 65536 ∧ c.sink.room = none ∧
      ∃ m n, Machine.ofSize 256 = .ok m ∧ Machine.ofSize 65536 = .ok n ∧
        let ran := (n.load image c).machine.run (n.load image c).console
        ran.result = .ok ⟨3, #[(0, 0xFF)]⟩ ∧ ran.machine.pc = 3 ∧
          ran.console.sink.accepted.toList = [0x30, 0x0A] := by
  intro image c
  obtain ⟨m, n, hm, hn, -, -, -, shown, ends⟩ :=
    @run_of_any_size image 256 65536 c (by decide) (by decide) rfl
  refine ⟨by decide, by decide, rfl, m, n, hm, hn, ?_⟩
  cases hm
  rw [show (ofMemory ⟨Array.replicate 256 0⟩).load image c = _ from load_zeros (by decide) c]
    at ends shown
  let ran := (ofMemory (.padded image 256)).run (c.note (.loaded image.length))
  have result : ran.result = .ok ⟨3, #[(0, 0xFF)]⟩ := by decide +kernel
  have stop : ran.machine.pc = 3 := by decide +kernel
  have lines : ran.console.sink.accepted.toList = [0x30, 0x0A] := by decide +kernel
  cases ends with
  | halted hr hr' _ pc =>
    cases hr.symm.trans result
    exact ⟨hr', pc.trans stop, (congrArg (·.accepted.toList) shown).trans lines⟩
  | badRegister hr => cases hr.symm.trans result
  | ranOut hr => cases hr.symm.trans result

end LS8
