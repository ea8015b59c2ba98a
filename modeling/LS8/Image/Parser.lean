import LS8.Image.Blank
import LS8.Memory

/-! The text form of a program image: on each line at most one byte in base two, and after a number
sign a comment. A line ends at a line feed. A carriage return before it is a blank, and what follows
the last line feed of a text that ends in one is a blank line, so neither needs a rule of its own. -/

namespace LS8

/-- What a line holds besides blanks and a comment, with the number of the line from one. -/
structure Literal where
  line : Nat
  text : List Char
deriving DecidableEq, Repr

/-- The text of a line before its comment, without the blanks around it. -/
def significantText (line : List Char) : List Char := trimBlanks (line.takeWhile (· ≠ '#'))

/-- The literals of a source in the order of their lines. -/
def Literal.ofSource (source : List Char) : List Literal :=
  ((source.splitOn '\n').zipIdx 1).filterMap fun (line, number) =>
    let text := significantText line
    if text.isEmpty then none else some ⟨number, text⟩

/-- The byte that a literal stands for, or the literal itself if it stands for none. -/
def Literal.byte (l : Literal) : Except Literal UInt8 :=
  match readNumeral 2 0xFF l.text with
  | .ok value => .ok (UInt8.ofNat value)
  | .error _ => .error l

/-- Reads a program image. If some literals are no bytes, the first of them is the fault. -/
def Image.parse (source : String) : Except Literal Image :=
  (Literal.ofSource source.toList).mapM Literal.byte

end LS8
