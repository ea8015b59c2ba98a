import LS8.Registers

/-! The arithmetic unit. It combines two registers modulo 256 and stores the result in the first. -/

namespace LS8

/-- The function that an operation computes, if it is an arithmetic one. -/
def Operation.combine? : Operation → Option (UInt8 → UInt8 → UInt8)
  | .add => some (· + ·)
  | .multiply => some (· * ·)
  | .halt | .loadImmediate | .print => none

/-- Both registers are looked at before the operation, so a bad register is reported first. -/
def Registers.apply (r : Registers) (operation : Operation) (target source : UInt8) :
    Except Fault Unit × Registers :=
  inPlace r do
    let x ← reading (·.read target)
    let y ← reading (·.read source)
    match operation.combine? with
    | some combine => changing (·.write target (combine x y))
    | none => throw (.unsupportedOperation operation)

/-- The registers are stored in only after all that can fail. -/
theorem Registers.keeps_apply (r : Registers) (operation : Operation) (target source : UInt8) :
    Keeps r (r.apply operation target source) := by
  refine .of_reading fun x => .of_reading fun y => ?_
  cases operation.combine? with
  | none => exact fun _ _ => rfl
  | some combine => exact r.keeps_write target (combine x y)

end LS8
