import LS8.CommandLine.Usage

/-! Reading the arguments. A value is checked late: what an option or the program position was given
waits until the next option, the next positional argument or the end settles it. So a bad value is
reported before what comes after it, but after an unknown argument that comes next. -/

namespace LS8

inductive Argument where
  /-- Two dashes by themselves: all later arguments are words. -/
  | separator
  /-- Two dashes and a name, perhaps an equals sign and a value. -/
  | long (name : String) (value? : Option String)
  /-- One dash and at least one letter. -/
  | short (letter : Char)
  | word (text : String)
deriving DecidableEq, Repr

def Argument.ofString (text : String) : Argument :=
  match text.toList with
  | ['-', '-'] => .separator
  | '-' :: '-' :: rest =>
    let name := String.ofList (rest.takeWhile (· ≠ '='))
    match rest.dropWhile (· ≠ '=') with
    | [] => .long name none
    | _ :: value => .long name (some (String.ofList value))
  | '-' :: letter :: _ => .short letter
  | _ => .word text

/-- A value that waits to be settled. -/
inductive Pending where
  | nothing
  /-- The option for the memory size was given and its value comes next. -/
  | sizeExpected
  | size (text : String)
  | program (path : String)
deriving DecidableEq, Repr

structure Reading where
  program? : Option String
  memorySize? : Option Nat
  trace : Bool
  pending : Pending
  wordsOnly : Bool
deriving DecidableEq, Repr

def Reading.start : Reading := ⟨none, none, false, .nothing, false⟩

/-- Why reading ends before the last argument. -/
inductive Stop where
  | help
  | misuse (fault : UsageFault)
deriving DecidableEq, Repr

def Reading.settle (r : Reading) : Except Stop Reading :=
  match r.pending with
  | .nothing => .ok r
  | .sizeExpected => .error (.misuse (.missingValue memorySizeUsage))
  | .size text =>
    if r.memorySize?.isSome then .error (.misuse (.repeatedOption memorySizeUsage))
    else
      match parseMemorySize text with
      | .ok size => .ok { r with memorySize? := some size, pending := .nothing }
      | .error reason => .error (.misuse (.invalidSize text reason))
  | .program path =>
    if path = "" then .error (.misuse (.missingValue "<PROGRAM>"))
    else .ok { r with program? := some path, pending := .nothing }

/-- The program position is taken as soon as a word stands in it. -/
def Reading.hasProgram (r : Reading) : Bool :=
  match r.pending with
  | .program _ => true
  | .nothing | .sizeExpected | .size _ => r.program?.isSome

def Reading.takeWord (r : Reading) (text : String) : Except Stop Reading :=
  if r.pending = .sizeExpected ∧ !r.wordsOnly then .ok { r with pending := .size text }
  else if r.hasProgram then .error (.misuse (.unexpectedArgument text))
  else do return { ← r.settle with pending := .program text }

def Reading.takeLong (r : Reading) (name : String) (value? : Option String) :
    Except Stop Reading := do
  let option := "--" ++ name
  match name, value? with
  | "memory-size", none => return { ← r.settle with pending := .sizeExpected }
  | "memory-size", some text => Reading.settle { ← r.settle with pending := .size text }
  | "trace", none =>
    let r ← r.settle
    if r.trace then throw (.misuse (.repeatedOption option))
    return { r with trace := true }
  | "help", none =>
    let _ ← r.settle
    throw .help
  | "trace", some value | "help", some value => throw (.misuse (.unexpectedValue option value))
  | _, _ => throw (.misuse (.unexpectedArgument option))

def Reading.take (r : Reading) (text : String) : Except Stop Reading := do
  if r.wordsOnly then r.takeWord text
  else
    match Argument.ofString text with
    | .separator => return { r with wordsOnly := true }
    | .long name value? => r.takeLong name value?
    | .short 'h' =>
      let _ ← r.settle
      throw .help
    | .short letter => throw (.misuse (.unexpectedArgument (String.ofList ['-', letter])))
    | .word text => r.takeWord text

structure Invocation where
  program : String
  memorySize : Nat
  trace : Bool
deriving DecidableEq, Repr

def Reading.finish (r : Reading) : Except Stop Invocation := do
  let r ← r.settle
  match r.program? with
  | some program => return ⟨program, r.memorySize?.getD minimumMemorySize, r.trace⟩
  | none => throw (.misuse .missingProgram)

def Invocation.ofArguments (arguments : List String) : Except Stop Invocation := do
  (← arguments.foldlM Reading.take Reading.start).finish

end LS8
