/-! Text without what a terminal acts on. Control characters are left out, and so are the sequences
that an escape character opens. What stays is visible, and a text that is visible throughout stays
as it is. -/

namespace LS8

/-- Line ends, tabs and form feeds: control characters that only move what follows them. -/
def isLayout (c : Char) : Bool := c = '\t' || c = '\n' || c = '\x0c' || c = '\r'

def isVisible (c : Char) : Bool := isLayout c || (' ' ≤ c && c ≠ '\x7f')

/-- What the characters read so far have opened. -/
inductive TerminalState where
  | ground
  | escape
  /-- An escape sequence that goes on to its last character. -/
  | escapeIntermediate
  | controlSequence
  | systemCommand
  /-- The head of a device control string, up to the character that opens its body. -/
  | device
  | deviceParameters
  | deviceIntermediate
  /-- The body of a string, up to its terminator. -/
  | string
deriving DecidableEq, Repr

/-- The byte that ends a string. It does so also as one of the bytes of a longer character. -/
def stringTerminator : UInt8 := 0x9c

def TerminalState.next (s : TerminalState) (c : Char) : TerminalState :=
  if c = '\x1b' then .escape
  else if c = '\x18' ∨ c = '\x1a' then .ground
  else
    match s with
    | .ground => .ground
    | .escape =>
      match c with
      | '[' => .controlSequence
      | ']' => .systemCommand
      | 'P' => .device
      | 'X' | '^' | '_' => .string
      | _ =>
        if ' ' ≤ c ∧ c ≤ '/' then .escapeIntermediate
        else if '0' ≤ c ∧ c ≤ '~' then .ground
        else .escape
    | .escapeIntermediate => if '0' ≤ c ∧ c ≤ '~' then .ground else .escapeIntermediate
    | .controlSequence => if '@' ≤ c ∧ c ≤ '~' then .ground else .controlSequence
    | .systemCommand => if c = '\x07' then .ground else .systemCommand
    | .device =>
      if ' ' ≤ c ∧ c ≤ '/' then .deviceIntermediate
      else if '0' ≤ c ∧ c ≤ '?' then .deviceParameters
      else if '@' ≤ c ∧ c ≤ '~' then .string
      else .device
    | .deviceParameters =>
      if ' ' ≤ c ∧ c ≤ '/' then .deviceIntermediate
      else if '<' ≤ c ∧ c ≤ '~' then .string
      else .deviceParameters
    | .deviceIntermediate => if '0' ≤ c ∧ c ≤ '~' then .string else .deviceIntermediate
    | .string => if stringTerminator ∈ String.utf8EncodeChar c then .ground else .string

/-- Commands and strings swallow all they hold; the other sequences let layout through. -/
def TerminalState.shows (s : TerminalState) (c : Char) : Bool :=
  match s with
  | .ground => isVisible c
  | .escape | .escapeIntermediate | .controlSequence => isLayout c
  | .systemCommand | .device | .deviceParameters | .deviceIntermediate | .string => false

/-- Layout interrupts the sequence that lets it through: what follows is shown as in the ground
state. The next character that is not visible resumes the sequence, and one beyond ASCII drops it. -/
def plainFrom (s : TerminalState) (interrupted : Bool) : List Char → List Char
  | [] => []
  | c :: cs =>
    if interrupted && isVisible c then
      c :: plainFrom (if c < '\x80' then s else .ground) true cs
    else if s.shows c then c :: plainFrom (s.next c) true cs
    else plainFrom (s.next c) false cs

def plainText (text : String) : String := String.ofList (plainFrom .ground false text.toList)

theorem TerminalState.next_ground_of_isVisible {c : Char} (h : isVisible c = true) :
    TerminalState.ground.next c = .ground := by
  have he : c ≠ '\x1b' := by rintro rfl; simp [isVisible, isLayout] at h
  simp [TerminalState.next, he]

theorem plainFrom_ground {interrupted : Bool} {text : List Char}
    (h : ∀ c ∈ text, isVisible c = true) : plainFrom .ground interrupted text = text := by
  induction text generalizing interrupted with
  | nil => rfl
  | cons c text ih =>
    have hc := h c List.mem_cons_self
    have ht (b : Bool) : plainFrom .ground b text = text :=
      ih fun d hd => h d (List.mem_cons_of_mem c hd)
    cases interrupted <;>
      simp [plainFrom, TerminalState.shows, hc, TerminalState.next_ground_of_isVisible hc, ht]

theorem plainText_eq_self {text : String} (h : ∀ c ∈ text.toList, isVisible c = true) :
    plainText text = text := by
  rw [plainText, plainFrom_ground h, String.ofList_toList]

end LS8
