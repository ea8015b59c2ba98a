import LS8.CommandLine.MemorySize
import LS8.CommandLine.PlainText

/-! Faults in the use of the command line, and the help text. -/

namespace LS8

inductive UsageFault where
  | unexpectedArgument (text : String)
  /-- An option that takes no value was given one. -/
  | unexpectedValue (option value : String)
  | missingValue (argument : String)
  | repeatedOption (option : String)
  | invalidSize (text : String) (reason : SizeFault)
  | missingProgram
deriving DecidableEq, Repr

def memorySizeUsage : String := "--memory-size <MEMORY_SIZE>"

/-- The first line of the complaint. It quotes what was typed as plain text. -/
def UsageFault.message : UsageFault → String
  | .unexpectedArgument text => s!"unexpected argument '{plainText text}' found"
  | .unexpectedValue option value =>
    s!"unexpected value '{plainText value}' for '{option}' found; no more were expected"
  | .missingValue argument => s!"a value is required for '{argument}' but none was supplied"
  | .repeatedOption option => s!"the argument '{option}' cannot be used multiple times"
  | .invalidSize text reason =>
    s!"invalid value '{plainText text}' for '{memorySizeUsage}': {reason.message}"
  | .missingProgram => "the following required arguments were not provided:"

def helpText : String :=
  "Run an LS-8 program image

Usage: ls8 [OPTIONS] <PROGRAM>

Arguments:
  <PROGRAM>  Program image: one binary byte per line, `#` comments allowed

Options:
      --trace                      Print a TRACE line before every cycle
      --memory-size <MEMORY_SIZE>  Number of memory cells [default: 256]
  -h, --help                       Print help
"

end LS8
