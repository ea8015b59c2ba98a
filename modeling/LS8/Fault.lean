import LS8.Numeral
import LS8.Operation

/-! Why the machine refuses: one constructor for each cause, and its wording. -/

namespace LS8

inductive Fault where
  | registerOutOfBounds (index : UInt8)
  | memoryOutOfBounds (address size : Nat)
  | memoryTooSmall (size : Nat)
  | programTooLarge (length size : Nat)
  | unsupportedOperation (operation : Operation)
  | outputClosed
deriving DecidableEq, Repr

/-- The least number of cells a memory may have, and the number it has by default. -/
def minimumMemorySize : Nat := 256

def Fault.message : Fault → String
  | .registerOutOfBounds index => s!"register index {decimal index.toNat} out of bounds"
  | .memoryOutOfBounds address size =>
    s!"memory address 0x{lowerHex 4 address} out of bounds (size {decimal size})"
  | .memoryTooSmall size =>
    s!"memory size {decimal size} is below the minimum of {decimal minimumMemorySize} cells"
  | .programTooLarge length size =>
    s!"program of {decimal length} bytes does not fit in {decimal size} bytes of memory"
  | .unsupportedOperation operation => s!"unsupported ALU operation {operation.mnemonic}"
  | .outputClosed => "failed to write output: closed"

theorem eq_ok_of_bind_eq_ok {ε α β : Type} {x : Except ε α} {f : α → Except ε β} {b : β}
    (h : x >>= f = .ok b) : ∃ a, x = .ok a ∧ f a = .ok b := by
  cases x with
  | error fault => cases h
  | ok a => exact ⟨a, rfl, h⟩

theorem error_or_ok_of_bind_eq_error {ε α β : Type} {x : Except ε α} {f : α → Except ε β}
    {fault : ε} (h : x >>= f = .error fault) :
    x = .error fault ∨ ∃ a, x = .ok a ∧ f a = .error fault := by
  cases x with
  | error fault' =>
    cases h
    exact .inl rfl
  | ok a => exact .inr ⟨a, rfl, h⟩

end LS8
