import LS8.Proofs.IndependentCalls

/-! The register file under reads, writes and calls of the arithmetic unit, in any order. A call that
succeeds stores its result in the slot that it is meant for and in no other, and one that fails stores
nothing. So a slot holds what the last call that stored in it has left there. -/

namespace LS8

inductive RegisterCall where
  | read (index : UInt8)
  | write (index value : UInt8)
  | compute (call : ArithmeticCall)

/-- What a call returns, which is a byte if it reads one, and the registers after it. -/
def Registers.serve (r : Registers) : RegisterCall → Except Fault (Option UInt8) × Registers
  | .read index => ((r.read index).map some, r)
  | .write index value => ((r.write index value).1.map fun _ => none, (r.write index value).2)
  | .compute call => ((r.call call).1.map fun _ => none, (r.call call).2)

def Registers.serveAll (r : Registers) (calls : List RegisterCall) : Registers :=
  calls.foldl (fun r k => (r.serve k).2) r

def RegisterCall.target? : RegisterCall → Option UInt8
  | .read _ => none
  | .write index _ => some index
  | .compute call => some call.target

/-- Why a call fails, if it does: of several reasons the first one counts. -/
def RegisterCall.fault? : RegisterCall → Option Fault
  | .read index | .write index _ =>
    if registerCount ≤ index.toNat then some (.registerOutOfBounds index) else none
  | .compute ⟨operation, target, source⟩ =>
    if registerCount ≤ target.toNat then some (.registerOutOfBounds target)
    else if registerCount ≤ source.toNat then some (.registerOutOfBounds source)
    else if operation ≠ .add ∧ operation ≠ .multiply then some (.unsupportedOperation operation)
    else none

/-- The result that a call has for slot `i`: the byte to be written, or the sum or the product of what two
slots hold before the call, reduced to a byte. -/
inductive Registers.Leaves (r : Registers) (i : Register) : RegisterCall → UInt8 → Prop
  | written (value : UInt8) : Leaves r i (.write i.byte value) value
  | sum (source : Register) {value : UInt8}
      (h : value.toNat = ((r.get i).toNat + (r.get source).toNat) % 256) :
      Leaves r i (.compute ⟨.add, i.byte, source.byte⟩) value
  | product (source : Register) {value : UInt8}
      (h : value.toNat = (r.get i).toNat * (r.get source).toNat % 256) :
      Leaves r i (.compute ⟨.multiply, i.byte, source.byte⟩) value

/-- The call succeeds, and slot `i` is the one that it is to change. -/
def Registers.Stores (r : Registers) (i : Register) (k : RegisterCall) : Prop :=
  k.target? = some i.byte ∧ (r.serve k).1.isOk

/-- None of the calls, made one after the other, stores in slot `i`. -/
def Registers.Spares (r : Registers) (i : Register) : List RegisterCall → Prop
  | [] => True
  | k :: calls => ¬ r.Stores i k ∧ (r.serve k).2.Spares i calls

/-- The byte is the result of the last call that stored in slot `i`. If there is none, it is the one that the
slot held at the start. -/
inductive Registers.HoldsLast (r : Registers) (i : Register) (calls : List RegisterCall) : UInt8 → Prop
  | start (spared : r.Spares i calls) : HoldsLast r i calls (r.get i)
  | stored {front rest : List RegisterCall} {k : RegisterCall} {value : UInt8}
      (split : calls = front ++ k :: rest) (stores : (r.serveAll front).Stores i k)
      (leaves : (r.serveAll front).Leaves i k value)
      (spared : (r.serveAll (front ++ [k])).Spares i rest) : HoldsLast r i calls value

inductive Registers.Served (r : Registers) (k : RegisterCall) : Prop
  | refused {fault : Fault} (why : k.fault? = some fault) (h : r.serve k = (.error fault, r))
  | shown {i : Register} (fine : k.fault? = none) (reads : k = .read i.byte)
      (h : r.serve k = (.ok (some (r.get i)), r))
  | stored {i : Register} {value : UInt8} (fine : k.fault? = none) (leaves : r.Leaves i k value)
      (h : r.serve k = (.ok none, r.set i value))

section Serve

variable {r : Registers} {i : Register} {k : RegisterCall}

theorem Registers.Leaves.target?_eq {value : UInt8} (h : r.Leaves i k value) :
    k.target? = some i.byte := by
  cases h <;> rfl

theorem Registers.serve_of_apply {operation : Operation} {target source : UInt8}
    {result : Except Fault Unit} {next : Registers}
    (h : r.apply operation target source = (result, next)) :
    r.serve (.compute ⟨operation, target, source⟩) = (result.map fun _ => none, next) := by
  rw [serve, call, h]

theorem Registers.served_read (r : Registers) (index : UInt8) : r.Served (.read index) := by
  by_cases out : registerCount ≤ index.toNat
  · refine .refused (if_pos out) ?_
    rw [serve, read_of_le out]
    rfl
  · obtain ⟨i, rfl⟩ := Register.exists_byte out
    refine .shown (if_neg out) rfl ?_
    rw [serve, read_byte]
    rfl

theorem Registers.served_write (r : Registers) (index value : UInt8) :
    r.Served (.write index value) := by
  by_cases out : registerCount ≤ index.toNat
  · refine .refused (if_pos out) ?_
    rw [serve, write_of_le value out]
    rfl
  · obtain ⟨i, rfl⟩ := Register.exists_byte out
    refine .stored (if_neg out) (.written value) ?_
    rw [serve, write_byte]
    rfl

theorem Registers.served_compute (r : Registers) (call : ArithmeticCall) :
    r.Served (.compute call) := by
  obtain ⟨operation, target, source⟩ := call
  cases applied operation target source with
  | noTarget out h =>
    refine .refused ?_ (serve_of_apply (h r))
    rw [RegisterCall.fault?, if_pos out]
  | noSource i target out h =>
    refine .refused ?_ (serve_of_apply (h r))
    rw [RegisterCall.fault?, ← target, if_neg i.not_le_toNat_byte, if_pos out]
  | noResult i j target source unsupported h =>
    refine .refused ?_ (serve_of_apply (h r))
    rw [RegisterCall.fault?, ← target, ← source, if_neg i.not_le_toNat_byte,
      if_neg j.not_le_toNat_byte, if_pos (Operation.combine?_eq_none_iff.mp unsupported)]
  | stored i j target source supported h =>
    subst target source
    have arithmetic : ¬ (operation ≠ .add ∧ operation ≠ .multiply) := by
      rw [← Operation.combine?_eq_none_iff, supported]
      exact nofun
    refine .stored ?_ ?_ (serve_of_apply (h r))
    · rw [RegisterCall.fault?, if_neg i.not_le_toNat_byte, if_neg j.not_le_toNat_byte,
        if_neg arithmetic]
    · cases operation with
      | add =>
        cases supported
        exact .sum j (UInt8.toNat_add ..)
      | multiply =>
        cases supported
        exact .product j (UInt8.toNat_mul ..)
      | halt | loadImmediate | print => cases supported

theorem Registers.served (r : Registers) (k : RegisterCall) : r.Served k := by
  cases k with
  | read index => exact r.served_read index
  | write index value => exact r.served_write index value
  | compute call => exact r.served_compute call

theorem Registers.leaves_of_stores (h : r.Stores i k) : r.Leaves i k ((r.serve k).2.get i) := by
  obtain ⟨target, succeeds⟩ := h
  cases r.served k with
  | refused _ hk =>
    rw [hk] at succeeds
    cases succeeds
  | shown _ reads =>
    rw [reads] at target
    cases target
  | @stored j value _ leaves hk =>
    cases Register.byte_inj.mp (Option.some.inj (leaves.target?_eq.symm.trans target))
    rwa [hk, get_set, if_pos rfl]

theorem Registers.get_serve_of_not_stores (h : ¬ r.Stores i k) :
    (r.serve k).2.get i = r.get i := by
  cases r.served k with
  | refused _ hk | shown _ _ hk => rw [hk]
  | @stored j value _ leaves hk =>
    have other : j ≠ i := by
      rintro rfl
      have succeeds : (r.serve k).1.isOk := by
        rw [hk]
        rfl
      exact h ⟨leaves.target?_eq, succeeds⟩
    rw [hk, get_set_of_ne other]

end Serve

theorem Registers.holdsLast (r : Registers) (i : Register) (calls : List RegisterCall) :
    r.HoldsLast i calls ((r.serveAll calls).get i) := by
  induction calls generalizing r with
  | nil => exact .start trivial
  | cons k calls ih =>
    have later : (r.serve k).2.HoldsLast i calls ((r.serveAll (k :: calls)).get i) := ih _
    generalize (r.serveAll (k :: calls)).get i = value at later ⊢
    cases later with
    | start spared =>
      -- no later call stores in the slot, so the one at the front is the last that may have done so
      by_cases stores : r.Stores i k
      · exact .stored (show k :: calls = [] ++ k :: calls from rfl) stores (leaves_of_stores stores)
          spared
      · rw [get_serve_of_not_stores stores]
        exact .start ⟨stores, spared⟩
    | @stored front rest l _ split stores leaves spared =>
      have split : k :: calls = (k :: front) ++ l :: rest := by rw [split, List.cons_append]
      exact .stored split stores leaves spared

structure Registers.Answers (r : Registers) (k : RegisterCall) : Prop where
  error_iff : ∀ fault, (r.serve k).1 = .error fault ↔ k.fault? = some fault
  error_keeps : ∀ fault, (r.serve k).1 = .error fault → (r.serve k).2 = r
  others_keep : ∀ i : Register, k.target? ≠ some i.byte → (r.serve k).2.get i = r.get i

theorem Registers.answers (r : Registers) (k : RegisterCall) : r.Answers k where
  error_iff fault := by
    cases r.served k with
    | refused why hk => rw [hk, why, Except.error.injEq, Option.some.injEq]
    | shown fine _ hk | stored fine _ hk =>
      rw [hk, fine]
      exact ⟨nofun, nofun⟩
  error_keeps fault failed := by
    cases r.served k with
    | refused _ hk | shown _ _ hk => rw [hk]
    | stored _ _ hk =>
      rw [hk] at failed
      cases failed
  others_keep i other := get_serve_of_not_stores fun h => other h.1

/-- A new register file has eight slots with a zero each. Whatever calls are made on it, there are eight slots
and each holds the result of the last call that stored in it, which is what a read of it gives. Any further
call fails for the first reason there is, and then changes nothing, or changes its target alone. -/
theorem Registers.holds_last_result (calls : List RegisterCall) :
    (zero.serveAll calls).toList.length = 8 ∧
      (∀ i, zero.get i = 0 ∧ zero.HoldsLast i calls ((zero.serveAll calls).get i) ∧
        (zero.serveAll calls).read i.byte = .ok ((zero.serveAll calls).get i)) ∧
      ∀ k, (zero.serveAll calls).Answers k := by
  refine ⟨Vector.length_toList, fun i => ⟨?_, zero.holdsLast i calls, read_byte _ i⟩, answers _⟩
  exact Vector.getElem_replicate i.isLt

/-- A square, a sum of a slot with itself, and calls that fail in between. -/
example : (Registers.zero.serveAll [.write 0 12, .compute ⟨.multiply, 0, 0⟩, .write 8 1,
    .write 3 200, .compute ⟨.add, 3, 3⟩, .compute ⟨.print, 0, 9⟩, .read 0]).toList =
      [144, 0, 0, 144, 0, 0, 0, 0] := by
  decide

end LS8
