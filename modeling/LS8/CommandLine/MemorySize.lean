import LS8.Fault

/-! The memory size as it is given on the command line: a decimal numeral, perhaps after a plus sign,
of at least the minimum and within sixty-four bits. -/

namespace LS8

inductive SizeFault where
  | notANumeral (reason : NumeralFault)
  | belowMinimum
deriving DecidableEq, Repr

def SizeFault.message : SizeFault → String
  | .notANumeral reason => reason.message
  | .belowMinimum => s!"must be at least {decimal minimumMemorySize}"

def sizeLimit : Nat := 0xFFFFFFFFFFFFFFFF

/-- The digits of a size. A plus sign with nothing behind it is no sign but a bad digit. -/
def withoutPlus : List Char → List Char
  | '+' :: c :: rest => c :: rest
  | text => text

def parseMemorySize (text : String) : Except SizeFault Nat :=
  match readNumeral 10 sizeLimit (withoutPlus text.toList) with
  | .error reason => .error (.notANumeral reason)
  | .ok size => if size < minimumMemorySize then .error .belowMinimum else .ok size

end LS8
