import LS8.Console.Log
import LS8.Console.Sink

/-! What a machine shows while it works: printed bytes go to a sink, events go to a log. -/

namespace LS8

structure Console where
  sink : Sink
  log : Log
deriving DecidableEq

def Console.note (c : Console) (event : Event) : Console := { c with log := c.log.note event }

def Console.offer (c : Console) (bytes : List UInt8) : Console :=
  { c with sink := c.sink.offer bytes }

end LS8
