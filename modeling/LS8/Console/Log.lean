import LS8.Console.Event

/-! The log. Its filter is fixed, and an event that the filter does not admit leaves no record. -/

namespace LS8

/-- Admits the events of targets that start with `target`, up to the verbosity of `threshold`.
Without a threshold nothing is admitted. -/
structure Filter where
  target : String
  threshold : Option Level
deriving DecidableEq

def Filter.off : Filter := ⟨"", none⟩

def Filter.upTo (level : Level) : Filter := ⟨"", some level⟩

def Filter.Admits (f : Filter) (event : Event) : Prop :=
  f.target.toList <+: event.target.toList ∧
    ∃ level ∈ f.threshold, event.level.verbosity ≤ level.verbosity

instance (f : Filter) (event : Event) : Decidable (f.Admits event) :=
  inferInstanceAs (Decidable (_ ∧ ∃ level ∈ f.threshold, _))

structure Log where
  filter : Filter
  events : Array Event
deriving DecidableEq

def Log.empty (filter : Filter) : Log := ⟨filter, #[]⟩

def Log.note (l : Log) (event : Event) : Log :=
  if l.filter.Admits event then { l with events := l.events.push event } else l

end LS8
