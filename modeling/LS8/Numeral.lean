/-! Numerals. Natural numbers are written in base ten without leading zeros, or in base sixteen
with at least a given number of digits. They are read in any base up to ten, digit by digit, and
reading stops at the first character that is no digit or that takes the value past a limit. -/

namespace LS8

def decimal (n : Nat) : String := String.ofList (Nat.toDigits 10 n)

def lowerHex (width n : Nat) : String :=
  String.ofList ((Nat.toDigits 16 n).leftpad width '0')

def upperHex (width n : Nat) : String :=
  String.ofList (((Nat.toDigits 16 n).map Char.toUpper).leftpad width '0')

inductive NumeralFault where
  | empty
  | invalidDigit
  | tooLarge
deriving DecidableEq, Repr

def NumeralFault.message : NumeralFault → String
  | .empty => "cannot parse integer from empty string"
  | .invalidDigit => "invalid digit found in string"
  | .tooLarge => "number too large to fit in target type"

def digit? (base : Nat) (c : Char) : Option Nat :=
  let value := c.toNat - '0'.toNat
  if c.isDigit ∧ value < base then some value else none

/-- Reads further digits after a numeral of value `value`. -/
def readDigits (base limit value : Nat) : List Char → Except NumeralFault Nat
  | [] => .ok value
  | c :: rest =>
    match digit? base c with
    | none => .error .invalidDigit
    | some d =>
      if base * value + d ≤ limit then readDigits base limit (base * value + d) rest
      else .error .tooLarge

/-- Reads a numeral whose value is at most `limit`. Leading zeros are allowed. -/
def readNumeral (base limit : Nat) (text : List Char) : Except NumeralFault Nat :=
  if text.isEmpty then .error .empty else readDigits base limit 0 text

end LS8
