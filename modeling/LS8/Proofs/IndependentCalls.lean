import LS8.Proofs.RegisterFile
import Mathlib.Control.Monad.Basic

/-! Calls of the arithmetic unit that do not touch each other. None of them writes a register that another
one reads or writes, so their order makes no difference, neither to what each call returns nor to the
registers that are left. That holds also where some of the calls fail. -/

namespace LS8

/-- What a call returns, and the registers after it. -/
def Registers.call (r : Registers) (k : ArithmeticCall) : Except Fault Unit × Registers :=
  r.apply k.operation k.target k.source

/-- Makes the calls one after the other, whether they fail or not, and gives each with what it returned. -/
def Registers.callAll (r : Registers) :
    List ArithmeticCall → List (ArithmeticCall × Except Fault Unit) × Registers
  | [] => ([], r)
  | k :: calls =>
    let rest := (r.call k).2.callAll calls
    ((k, (r.call k).1) :: rest.1, rest.2)

/-- Neither call writes a register that the other one names. -/
def ArithmeticCall.Independent (k l : ArithmeticCall) : Prop :=
  k.target ≠ l.target ∧ k.target ≠ l.source ∧ k.source ≠ l.target

instance (k l : ArithmeticCall) : Decidable (k.Independent l) :=
  inferInstanceAs (Decidable (_ ∧ _ ∧ _))

/-- All that a call can come to. Which of the two it is does not depend on what the registers hold. -/
inductive ArithmeticCall.ComesTo (k : ArithmeticCall) : Prop
  | refused {fault : Fault} (h : ∀ r : Registers, r.call k = (.error fault, r))
  | stored {target source : Register} (combine : UInt8 → UInt8 → UInt8)
      (target_eq : target.byte = k.target) (source_eq : source.byte = k.source)
      (h : ∀ r : Registers,
        r.call k = (.ok (), r.set target (combine (r.get target) (r.get source))))

section Call

variable {k l : ArithmeticCall}

theorem ArithmeticCall.Independent.symm (h : k.Independent l) : l.Independent k :=
  ⟨h.1.symm, h.2.2.symm, h.2.1.symm⟩

theorem ArithmeticCall.comesTo (k : ArithmeticCall) : k.ComesTo := by
  cases Registers.applied k.operation k.target k.source with
  | noTarget _ h | noSource _ _ _ h | noResult _ _ _ _ _ h => exact .refused h
  | stored _ _ target_eq source_eq _ h => exact .stored _ target_eq source_eq h

/-- Of two independent calls each returns what it would without the other, and the registers are the same
in either order. -/
theorem Registers.call_comm (h : k.Independent l) (r : Registers) :
    ((r.call k).2.call l).1 = (r.call l).1 ∧
      ((r.call k).2.call l).2 = ((r.call l).2.call k).2 := by
  obtain ⟨targets, written, read⟩ := h
  cases k.comesTo with
  | refused hk => simp only [hk, and_self]
  | @stored target source _ target_eq source_eq hk =>
    cases l.comesTo with
    | refused hl => simp only [hl, and_self]
    | @stored target' source' _ target_eq' source_eq' hl =>
      have ne : target ≠ target' := by
        rintro rfl
        exact targets (target_eq.symm.trans target_eq')
      have ne_source : target ≠ source' := by
        rintro rfl
        exact written (target_eq.symm.trans source_eq')
      have source_ne : target' ≠ source := by
        rintro rfl
        exact read (source_eq.symm.trans target_eq')
      simp only [hk, hl, get_set_of_ne ne, get_set_of_ne ne.symm, get_set_of_ne ne_source,
        get_set_of_ne source_ne, set_comm ne, and_self]

end Call

theorem Registers.callAll_perm {calls others : List ArithmeticCall} (perm : calls.Perm others)
    (independent : calls.Pairwise ArithmeticCall.Independent) (r : Registers) :
    (r.callAll calls).1.Perm (r.callAll others).1 ∧
      (r.callAll calls).2 = (r.callAll others).2 := by
  induction perm generalizing r with
  | nil => exact ⟨.refl _, rfl⟩
  | cons k _ ih =>
    obtain ⟨results, last⟩ := ih (List.pairwise_cons.mp independent).2 (r.call k).2
    exact ⟨results.cons _, last⟩
  | swap k l calls =>
    -- the two calls at the front change places, and the others find the same registers
    have apart : l.Independent k := (List.pairwise_cons.mp independent).1 k List.mem_cons_self
    obtain ⟨hk, hr⟩ := r.call_comm apart
    obtain ⟨hl, -⟩ := r.call_comm apart.symm
    simp only [callAll, hk, hl, hr, and_true]
    exact .swap ..
  | trans perm _ ih ih' =>
    obtain ⟨results, last⟩ := ih independent r
    have independent' := perm.pairwise independent ArithmeticCall.Independent.symm
    obtain ⟨results', last'⟩ := ih' independent' r
    exact ⟨results.trans results', last.trans last'⟩

/-- Independent calls can be made in either order, whatever they ask for: each returns the same, and the same
registers are left. So calls of which any two are independent can be made in any order. -/
theorem Registers.independent_calls (r : Registers) :
    (∀ k l : ArithmeticCall, k.Independent l →
      ((r.call l).2.call k).1 = (r.call k).1 ∧ ((r.call k).2.call l).1 = (r.call l).1 ∧
        ((r.call k).2.call l).2 = ((r.call l).2.call k).2) ∧
    ∀ calls others : List ArithmeticCall, calls.Pairwise ArithmeticCall.Independent →
      others.Perm calls →
        (r.callAll others).2 = (r.callAll calls).2 ∧
          (r.callAll others).1.Perm (r.callAll calls).1 := by
  refine ⟨fun k l apart => ?_, fun calls others independent perm => ?_⟩
  · obtain ⟨hl, hr⟩ := r.call_comm apart
    exact ⟨(r.call_comm apart.symm).1, hl, hr⟩
  · obtain ⟨results, last⟩ := r.callAll_perm perm.symm independent
    exact ⟨last.symm, results.symm⟩

/-- A square, a sum, a register that does not exist and an operation that is not arithmetic, which share one
source, and the same calls the other way round. -/
theorem Registers.independent_calls_reversed :
    let r : Registers := ⟨#v[12, 250, 7, 9, 1, 0, 0, 0]⟩
    let calls : List ArithmeticCall :=
      [⟨.multiply, 0, 0⟩, ⟨.add, 1, 3⟩, ⟨.add, 2, 9⟩, ⟨.print, 4, 3⟩]
    calls.Pairwise ArithmeticCall.Independent ∧
      (r.callAll calls).2 = ⟨#v[144, 3, 7, 9, 1, 0, 0, 0]⟩ ∧
      (r.callAll calls.reverse).2 = (r.callAll calls).2 ∧
      (r.callAll calls).1.map Prod.snd =
        [.ok (), .ok (), .error (.registerOutOfBounds 9), .error (.unsupportedOperation .print)] ∧
      (r.callAll calls.reverse).1.Perm (r.callAll calls).1 := by
  intro r calls
  have independent : calls.Pairwise ArithmeticCall.Independent := by decide
  obtain ⟨last, results⟩ :=
    (independent_calls r).2 calls calls.reverse independent (List.reverse_perm calls)
  exact ⟨independent, by decide, last, by decide, results⟩

end LS8
