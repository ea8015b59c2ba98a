import LS8.Snapshot

/-! Events that are worth a record in the log: an image was parsed from a file or loaded into memory,
a cycle begins, a byte that is no opcode was skipped, the machine halted. An event keeps what
happened; its level, its target and its wording are derived from that. -/

namespace LS8

inductive Level where
  | error
  | warn
  | info
  | debug
  | trace
deriving DecidableEq, Repr

def Level.all : List Level := [.error, .warn, .info, .debug, .trace]

def Level.name : Level → String
  | .error => "ERROR"
  | .warn => "WARN"
  | .info => "INFO"
  | .debug => "DEBUG"
  | .trace => "TRACE"

def Level.verbosity : Level → Nat
  | .error => 1
  | .warn => 2
  | .info => 3
  | .debug => 4
  | .trace => 5

inductive Event where
  | parsed (length : Nat) (path : String)
  | loaded (length : Nat)
  | cycle (before : Snapshot)
  | skipped (address : Nat) (byte : UInt8)
  | halted (address : Nat)
deriving DecidableEq

def Event.level : Event → Level
  | .parsed _ _ | .loaded _ | .halted _ => .debug
  | .cycle _ => .trace
  | .skipped _ _ => .warn

def Event.target : Event → String
  | .parsed _ _ => "ls8::loader"
  | .loaded _ | .cycle _ | .skipped _ _ | .halted _ => "ls8::computer"

def Event.text : Event → String
  | .parsed length path => s!"parsed {decimal length} bytes from {path}"
  | .loaded length => s!"loaded {decimal length} bytes"
  | .cycle before => before.line
  | .skipped address byte =>
    s!"unknown opcode {decimal byte.toNat} (0x{lowerHex 2 byte.toNat}) at address 0x{lowerHex 2 address}"
  | .halted address => s!"halted at address 0x{lowerHex 2 address}"

end LS8
