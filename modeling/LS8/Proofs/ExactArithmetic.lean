import LS8.Proofs.RegisterFile
import LS8.Proofs.StepByStep

/-! Arithmetic without bounds. An exact machine is one whose registers hold natural numbers of any
size. Nothing it does to them depends on more than their remainders modulo 256, so a machine that
takes the remainder after every operation differs from it in nothing that is shown. -/

namespace LS8

@[ext] structure ExactRegisters where
  slots : Vector Nat registerCount

namespace ExactRegisters

def get (x : ExactRegisters) (i : Register) : Nat := x.slots.get i

def read (x : ExactRegisters) (index : UInt8) : Except Fault Nat :=
  if h : index.toNat < registerCount then .ok x.slots[index.toNat]
  else .error (.registerOutOfBounds index)

def write (x : ExactRegisters) (index : UInt8) (value : Nat) : Except Fault ExactRegisters :=
  if h : index.toNat < registerCount then .ok ⟨x.slots.set index.toNat value h⟩
  else .error (.registerOutOfBounds index)

end ExactRegisters

def Operation.exact? : Operation → Option (Nat → Nat → Nat)
  | .add => some (· + ·)
  | .multiply => some (· * ·)
  | .halt | .loadImmediate | .print => none

def ExactRegisters.apply (x : ExactRegisters) (operation : Operation) (target source : UInt8) :
    Except Fault ExactRegisters := do
  let a ← x.read target
  let b ← x.read source
  match operation.exact? with
  | some combine => x.write target (combine a b)
  | none => throw (.unsupportedOperation operation)

structure ExactMachine where
  registers : ExactRegisters
  pc : Nat
  memory : Memory
  status : Status

inductive ExactEffect where
  | skipped (address : Nat) (byte : UInt8)
  | halted (address : Nat)
  | printed (value : Nat)
  | computed (operation : Operation)

def ExactEffect.step : ExactEffect → Step
  | .skipped address byte => .skipped address byte
  | .halted _ => .halted
  | .printed _ => .executed .print
  | .computed operation => .executed operation

/-- A number is reduced when it is shown, and not before. -/
def ExactEffect.output : ExactEffect → List UInt8
  | .printed value => (Nat.toDigits 10 (value % 256)).map Char.toUInt8 ++ [0x0A]
  | .skipped _ _ | .halted _ | .computed _ => []

structure ExactTurn (α : Type) where
  result : Except Fault α
  machine : ExactMachine
  sink : Sink

namespace ExactMachine

def past (x : ExactMachine) (i : Instruction) (registers : ExactRegisters) : ExactMachine :=
  { x with registers, pc := x.pc + i.size }

def execute (x : ExactMachine) (i : Instruction) : Except Fault (ExactEffect × ExactMachine) :=
  match i with
  | .unknown byte => .ok (.skipped x.pc byte, x.past i x.registers)
  | .halt => .ok (.halted x.pc, { x with status := .halted })
  | .print register => do
    let value ← x.registers.read register
    return (.printed value, x.past i x.registers)
  | .loadImmediate register value => do
    let registers ← x.registers.write register value.toNat
    return (.computed .loadImmediate, x.past i registers)
  | .arithmetic operation target source => do
    let registers ← x.registers.apply operation target source
    return (.computed operation, x.past i registers)

def cycle (x : ExactMachine) : Except Fault (ExactEffect × ExactMachine) := do
  x.execute (← x.memory.fetch x.pc)

def step (x : ExactMachine) (s : Sink) : ExactTurn Step :=
  match x.status with
  | .halted => ⟨.ok .halted, x, s⟩
  | .running =>
    match x.cycle with
    | .error fault => ⟨.error fault, x, s⟩
    | .ok (effect, next) =>
      if s.Fits effect.output then ⟨.ok effect.step, next, s.offer effect.output⟩
      else ⟨.error .outputClosed, x, s.offer effect.output⟩

def steps (x : ExactMachine) (s : Sink) : Nat → ExactTurn (List (Status × Step))
  | 0 => ⟨.ok [], x, s⟩
  | k + 1 =>
    match x.step s with
    | ⟨.error fault, next, shown⟩ => ⟨.error fault, next, shown⟩
    | ⟨.ok step, next, shown⟩ =>
      let rest := next.steps shown k
      ⟨rest.result.map ((x.status, step) :: ·), rest.machine, rest.sink⟩

end ExactMachine

def Registers.exact (r : Registers) : ExactRegisters := ⟨r.slots.map UInt8.toNat⟩

def Machine.exact (m : Machine) : ExactMachine := ⟨m.registers.exact, m.pc, m.memory, m.status⟩

/-! Reduction modulo 256 takes each part of an exact machine to the like part of a machine. -/

def ExactRegisters.reduced (x : ExactRegisters) : Registers := ⟨x.slots.map UInt8.ofNat⟩

def ExactMachine.reduced (x : ExactMachine) : Machine :=
  ⟨x.registers.reduced, x.pc, x.memory, x.status⟩

def ExactEffect.reduced : ExactEffect → Effect
  | .skipped address byte => .skipped address byte
  | .halted address => .halted address
  | .printed value => .printed (UInt8.ofNat value)
  | .computed operation => .computed operation

theorem Registers.reduced_exact (r : Registers) : r.exact.reduced = r := by
  have h : UInt8.ofNat ∘ UInt8.toNat = id := funext fun _ => UInt8.ofNat_toNat
  simp [exact, ExactRegisters.reduced, h]

theorem Machine.reduced_exact (m : Machine) : m.exact.reduced = m := by
  simp only [exact, ExactMachine.reduced, Registers.reduced_exact]

theorem ExactRegisters.toNat_get_reduced (x : ExactRegisters) (i : Register) :
    (x.reduced.get i).toNat = x.get i % 256 := by
  simp [reduced, Registers.get, get, Vector.get]

theorem ExactRegisters.read_reduced (x : ExactRegisters) (index : UInt8) :
    x.reduced.read index = (x.read index).map UInt8.ofNat := by
  by_cases h : index.toNat < registerCount <;>
    simp [Registers.read, read, reduced, h, Except.map]

theorem ExactRegisters.write_reduced (x : ExactRegisters) (index : UInt8) (value : Nat) :
    afterSuccess (x.reduced.write index (UInt8.ofNat value)) = (x.write index value).map reduced := by
  by_cases h : index.toNat < registerCount <;>
    simp [Registers.write, write, reduced, h, Except.map, afterSuccess]

/-- Sums and products may be reduced before or after. -/
theorem Operation.combine?_eq_map (operation : Operation) :
    (operation.combine? = none ∧ operation.exact? = none) ∨
      ∃ combine exact, operation.combine? = some combine ∧ operation.exact? = some exact ∧
        ∀ a b, combine (UInt8.ofNat a) (UInt8.ofNat b) = UInt8.ofNat (exact a b) := by
  cases operation with
  | add => exact .inr ⟨_, _, rfl, rfl, fun a b => (UInt8.ofNat_add a b).symm⟩
  | multiply => exact .inr ⟨_, _, rfl, rfl, fun a b => (UInt8.ofNat_mul a b).symm⟩
  | halt | loadImmediate | print => exact .inl ⟨rfl, rfl⟩

theorem ExactRegisters.apply_reduced (x : ExactRegisters) (operation : Operation)
    (target source : UInt8) :
    afterSuccess (x.reduced.apply operation target source) =
      (x.apply operation target source).map reduced := by
  rw [Registers.apply, apply]
  simp only [inPlace_bind, inPlace_reading, read_reduced]
  cases ha : x.read target with
  | error fault => rfl
  | ok a =>
    simp only [Except.map, read_reduced]
    cases hb : x.read source with
    | error fault => rfl
    | ok b =>
      rcases operation.combine?_eq_map with ⟨hc, he⟩ | ⟨combine, exact, hc, he, commute⟩
      · rw [hc, he]
        rfl
      · rw [hc, he]
        show afterSuccess (x.reduced.write target (combine (UInt8.ofNat a) (UInt8.ofNat b))) = _
        rw [commute, write_reduced]
        rfl

theorem ExactEffect.step_reduced (effect : ExactEffect) : effect.reduced.step = effect.step := by
  cases effect <;> rfl

theorem ExactEffect.output_reduced (effect : ExactEffect) :
    effect.reduced.output = effect.output := by
  cases effect with
  | printed value => simp [reduced, Effect.output, outputLine, output]
  | skipped | halted | computed => rfl

theorem ExactMachine.cycle_reduced (x : ExactMachine) :
    x.reduced.cycle = x.cycle.map fun (effect, next) => (effect.reduced, next.reduced) := by
  have hf : x.reduced.cycle = x.memory.fetch x.pc >>= x.reduced.execute := rfl
  rw [hf, cycle]
  cases x.memory.fetch x.pc with
  | error fault => rfl
  | ok i =>
    show x.reduced.execute i = (x.execute i).map _
    cases i with
    | unknown | halt => rfl
    | print register =>
      have hr := x.registers.read_reduced register
      simp only [Machine.execute, execute, reduced, hr]
      cases x.registers.read register <;> rfl
    | loadImmediate register value =>
      have hw := x.registers.write_reduced register value.toNat
      rw [UInt8.ofNat_toNat] at hw
      simp only [Machine.execute, execute, reduced, hw]
      cases x.registers.write register value.toNat <;> rfl
    | arithmetic operation target source =>
      have ha := x.registers.apply_reduced operation target source
      simp only [Machine.execute, execute, reduced, ha]
      cases x.registers.apply operation target source <;> rfl

structure ExactTurn.ReducesTo {α : Type} (x : ExactTurn α) (t : Turn α) : Prop where
  result : t.result = x.result
  machine : t.machine = x.machine.reduced
  sink : t.console.sink = x.sink

theorem ExactMachine.step_reducesTo (x : ExactMachine) (c : Console) :
    (x.step c.sink).ReducesTo (x.reduced.step c) := by
  cases status : x.status with
  | halted =>
    have hr : x.reduced.status = .halted := status
    rw [Machine.step_of_halted hr, step, status]
    exact ⟨rfl, rfl, rfl⟩
  | running =>
    have hr : x.reduced.status = .running := status
    have hc := x.cycle_reduced
    cases h : x.cycle with
    | error fault =>
      rw [h] at hc
      rw [Machine.step_of_error hr hc, step, status, h]
      exact ⟨rfl, rfl, rfl⟩
    | ok shown =>
      obtain ⟨effect, next⟩ := shown
      rw [h] at hc
      have hs : (c.follow [(x.reduced, effect.reduced)]).sink = c.sink.offer effect.output := by
        rw [Console.sink_follow, History.output_singleton, effect.output_reduced]
      rw [step, status, h]
      by_cases fits : c.sink.Fits effect.output
      · have fits' : c.sink.Fits effect.reduced.output := by rwa [effect.output_reduced]
        rw [Machine.step_of_fits hr hc fits', effect.step_reduced]
        simp only [fits, if_true]
        exact ⟨rfl, rfl, hs⟩
      · have refused : ¬ c.sink.Fits effect.reduced.output := by rwa [effect.output_reduced]
        rw [Machine.step_of_refused hr hc refused]
        simp only [fits, if_false]
        exact ⟨rfl, rfl, hs⟩

theorem ExactMachine.steps_reducesTo (x : ExactMachine) (c : Console) (k : Nat) :
    (x.steps c.sink k).ReducesTo (x.reduced.steps c k) := by
  induction k generalizing x c with
  | zero => exact ⟨rfl, rfl, rfl⟩
  | succ k ih =>
    have hs := x.step_reducesTo c
    rw [steps, Machine.steps]
    generalize x.step c.sink = ideal at hs
    generalize x.reduced.step c = real at hs
    obtain ⟨result, next, sink⟩ := ideal
    obtain ⟨result', next', shown⟩ := real
    obtain ⟨hr, hm, hk⟩ := hs
    simp only at hr hm hk
    subst hr hm hk
    cases result' with
    | error fault => exact ⟨rfl, rfl, rfl⟩
    | ok step =>
      have hn := ih next shown
      exact ⟨congrArg (Except.map _) hn.result, hn.machine, hn.sink⟩

structure ArithmeticCall.Sound (call : ArithmeticCall) : Prop where
  operation : call.operation = .add ∨ call.operation = .multiply
  target : call.target.toNat < registerCount
  source : call.source.toNat < registerCount

def Registers.applyAll (r : Registers) (calls : List ArithmeticCall) : Except Fault Registers :=
  calls.foldlM (fun r call => afterSuccess (r.apply call.operation call.target call.source)) r

def ExactRegisters.applyAll (x : ExactRegisters) (calls : List ArithmeticCall) :
    Except Fault ExactRegisters :=
  calls.foldlM (fun x call => x.apply call.operation call.target call.source) x

theorem ExactRegisters.applyAll_reduced (x : ExactRegisters) (calls : List ArithmeticCall) :
    x.reduced.applyAll calls = (x.applyAll calls).map reduced := by
  induction calls generalizing x with
  | nil => rfl
  | cons call calls ih =>
    rw [Registers.applyAll, applyAll, List.foldlM_cons, List.foldlM_cons, apply_reduced]
    cases x.apply call.operation call.target call.source with
    | error fault => rfl
    | ok next => exact ih next

theorem ExactRegisters.exists_apply {call : ArithmeticCall} (sound : call.Sound)
    (x : ExactRegisters) : ∃ y, x.apply call.operation call.target call.source = .ok y := by
  obtain ⟨combine, he⟩ : ∃ combine, call.operation.exact? = some combine := by
    rcases sound.operation with h | h <;> exact ⟨_, by rw [h]; rfl⟩
  obtain ⟨a, ha⟩ : ∃ a, x.read call.target = .ok a := ⟨_, dif_pos sound.target⟩
  obtain ⟨b, hb⟩ : ∃ b, x.read call.source = .ok b := ⟨_, dif_pos sound.source⟩
  obtain ⟨y, hy⟩ : ∃ y, x.write call.target (combine a b) = .ok y := ⟨_, dif_pos sound.target⟩
  exact ⟨y, by rw [apply, ha, hb, he]; exact hy⟩

theorem ExactRegisters.exists_applyAll {calls : List ArithmeticCall}
    (sound : ∀ call ∈ calls, call.Sound) (x : ExactRegisters) : ∃ y, x.applyAll calls = .ok y := by
  induction calls generalizing x with
  | nil => exact ⟨x, rfl⟩
  | cons call calls ih =>
    obtain ⟨hc, hcalls⟩ := List.forall_mem_cons.mp sound
    obtain ⟨next, hn⟩ := exists_apply hc x
    obtain ⟨y, hy⟩ := ih hcalls next
    exact ⟨y, by rw [applyAll, List.foldlM_cons, hn]; exact hy⟩

/-- A machine and an exact one that starts with the same registers, after any number of steps with any
sink: they have done and shown the same, and each register is the exact one modulo 256. So it is also
after any calls of the arithmetic unit. -/
theorem Machine.steps_modulo_exact (m : Machine) (c : Console) (k : Nat) (r : Registers)
    (calls : List ArithmeticCall) :
    let real := m.steps c k
    let ideal := m.exact.steps c.sink k
    (real.result = ideal.result ∧ real.console.sink = ideal.sink ∧
      real.machine.pc = ideal.machine.pc ∧ real.machine.memory = ideal.machine.memory ∧
      real.machine.status = ideal.machine.status ∧
      ∀ i, (real.machine.registers.get i).toNat = ideal.machine.registers.get i % 256) ∧
    ((∀ call ∈ calls, call.Sound) → ∃ wrapped unbounded,
      r.applyAll calls = .ok wrapped ∧ r.exact.applyAll calls = .ok unbounded ∧
        ∀ i, (wrapped.get i).toNat = unbounded.get i % 256) := by
  intro real ideal
  constructor
  · have h : ideal.ReducesTo real := by
      have h := m.exact.steps_reducesTo c k
      rwa [m.reduced_exact] at h
    rw [h.machine]
    exact ⟨h.result, h.sink, rfl, rfl, rfl, ideal.machine.registers.toNat_get_reduced⟩
  · intro sound
    obtain ⟨unbounded, hu⟩ := ExactRegisters.exists_applyAll sound r.exact
    have hw := r.exact.applyAll_reduced calls
    rw [r.reduced_exact, hu] at hw
    exact ⟨unbounded.reduced, unbounded, hw, hu, unbounded.toNat_get_reduced⟩

/-- A square of a square that is printed, and a register added to itself. -/
theorem Machine.steps_modulo_exact_squares :
    let m : Machine :=
      ⟨.zero, 0, ⟨#[0x82, 3, 7, 0xA2, 3, 3, 0xA2, 3, 3, 0x47, 3, 0x82, 3, 5]⟩, .running⟩
    let c : Console := ⟨.unlimited, .empty .off⟩
    let calls : List ArithmeticCall := [⟨.add, 1, 1⟩, ⟨.multiply, 1, 1⟩]
    let r : Registers := ⟨#v[0, 90, 0, 0, 0, 0, 0, 0]⟩
    let one : Register := ⟨1, by decide⟩
    let three : Register := ⟨3, by decide⟩
    (m.exact.steps c.sink 4).machine.registers.get three = 2401 ∧
      ((m.steps c 4).machine.registers.get three).toNat = 2401 % 256 ∧
      (m.steps c 4).console.sink.accepted.toList = [0x39, 0x37, 0x0A] ∧
      (∀ call ∈ calls, call.Sound) ∧ ∃ wrapped unbounded,
        r.applyAll calls = .ok wrapped ∧ r.exact.applyAll calls = .ok unbounded ∧
          (wrapped.get one).toNat = unbounded.get one % 256 := by
  intro m c calls r one three
  have sound : ∀ call ∈ calls, call.Sound :=
    List.forall_mem_cons.mpr ⟨⟨.inl rfl, by decide, by decide⟩,
      List.forall_mem_cons.mpr ⟨⟨.inr rfl, by decide, by decide⟩, nofun⟩⟩
  have square : (m.exact.steps c.sink 4).machine.registers.get three = 2401 := by decide +kernel
  obtain ⟨⟨-, shown, -, -, -, remainder⟩, called⟩ := steps_modulo_exact m c 4 r calls
  obtain ⟨wrapped, unbounded, hw, hu, each⟩ := called sound
  refine ⟨square, ?_, ?_, sound, wrapped, unbounded, hw, hu, each one⟩
  · rw [remainder, square]
  · rw [shown]
    decide +kernel

end LS8
