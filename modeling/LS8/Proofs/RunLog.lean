import LS8.Proofs.Running

/-! What a run leaves in the log. Each cycle is noted before it is taken, and a byte that it skips or a
halt behind it. The filter leaves events out and changes nothing else. -/

namespace LS8

theorem Log.filter_note (l : Log) (event : Event) : (l.note event).filter = l.filter := by
  rw [note]
  split <;> rfl

theorem Log.events_note (l : Log) (event : Event) :
    (l.note event).events.toList = l.events.toList ++ [event].filter (l.filter.Admits ·) := by
  by_cases h : l.filter.Admits event <;> simp [note, h]

theorem Event.admitted_by_trace (event : Event) : (Filter.upTo .trace).Admits event := by
  refine ⟨List.nil_prefix, .trace, rfl, ?_⟩
  cases event.level <;> decide

def Effect.events (effect : Effect) (before : Machine) : List Event :=
  .cycle before.snapshot :: effect.event?.toList

def History.events (h : History) : List Event := h.flatMap fun (m, effect) => effect.events m

theorem Console.log_display (c : Console) (m : Machine) (effect : Effect) :
    ((c.note (.cycle m.snapshot)).display effect).log = (effect.events m).foldl Log.note c.log := by
  cases effect <;> simp [display, Effect.events, Effect.event?, note, offer]

theorem Log.foldl_note (l : Log) (events : List Event) :
    (events.foldl note l).filter = l.filter ∧
      (events.foldl note l).events.toList =
        l.events.toList ++ events.filter (l.filter.Admits ·) := by
  induction events generalizing l with
  | nil => simp
  | cons event events ih =>
    obtain ⟨hf, he⟩ := ih (l.note event)
    rw [filter_note] at hf he
    rw [List.foldl_cons, hf, he, events_note, List.append_assoc, ← List.filter_append]
    simp

/-- The log keeps every event. -/
def Log.Full (l : Log) : Prop := l.filter = .upTo .trace

theorem Log.full_empty : (Log.empty (.upTo .trace)).Full := rfl

theorem Log.Full.note {l : Log} (full : l.Full) (event : Event) : (l.note event).Full :=
  (l.filter_note event).trans full

theorem Log.Full.events_foldl_note {l : Log} (full : l.Full) (events : List Event) :
    (events.foldl Log.note l).events.toList = l.events.toList ++ events := by
  rw [(l.foldl_note events).2, full]
  exact congrArg _ (List.filter_eq_self.mpr fun event _ => decide_eq_true event.admitted_by_trace)

theorem Console.log_follow (c : Console) (h : History) :
    (c.follow h).log = h.events.foldl Log.note c.log := by
  induction h generalizing c with
  | nil => rfl
  | cons cycle h ih =>
    obtain ⟨m, effect⟩ := cycle
    calc (c.follow ((m, effect) :: h)).log
        = (History.events h).foldl Log.note ((c.note (.cycle m.snapshot)).display effect).log := ih _
      _ = (History.events ((m, effect) :: h)).foldl Log.note c.log := by
          rw [log_display, ← List.foldl_append]
          rfl

def Event.warning? : Event → Option (Nat × UInt8)
  | .skipped address byte => some (address, byte)
  | .parsed _ _ | .loaded _ | .cycle _ | .halted _ => none

/-- The bytes that the log has warnings about, with their addresses. -/
def Log.warnings (l : Log) : List (Nat × UInt8) := l.events.toList.filterMap Event.warning?

def Filter.Warns (f : Filter) : Prop := ∀ address byte, f.Admits (.skipped address byte)

theorem Filter.Warns.filterMap_filter {f : Filter} (warns : f.Warns) (events : List Event) :
    (events.filter (f.Admits ·)).filterMap Event.warning? = events.filterMap Event.warning? := by
  rw [List.filterMap_filter]
  refine congrArg (List.filterMap · events) (funext fun event => ?_)
  cases event with
  | skipped address byte => simp [warns address byte]
  | parsed | loaded | cycle | halted => simp [Event.warning?]

theorem Log.warnings_foldl_note {l : Log} (warns : l.filter.Warns) (events : List Event) :
    (events.foldl note l).warnings = l.warnings ++ events.filterMap Event.warning? := by
  rw [warnings, (l.foldl_note events).2, List.filterMap_append, warns.filterMap_filter]
  rfl

theorem History.warnings_events (h : History) :
    h.events.filterMap Event.warning? = h.steps.filterMap Step.skipped? := by
  induction h with
  | nil => rfl
  | cons cycle h ih =>
    obtain ⟨m, effect⟩ := cycle
    have hc : History.events ((m, effect) :: h) = effect.events m ++ History.events h := rfl
    rw [hc, List.filterMap_append, ih]
    cases effect <;> rfl

/-- A run warns of the bytes that it skips, also if it fails in the end. -/
theorem Execution.warnings_run {m last : Machine} {history : History} {fault? : Option Fault}
    {c : Console} (h : Execution m history last) (stops : last.Stops fault?)
    (fits : c.sink.Fits history.output) (warns : c.log.filter.Warns) :
    (m.run c).console.log.warnings =
      c.log.warnings ++ history.steps.filterMap Step.skipped? := by
  have hw : (c.follow history).log.warnings =
      c.log.warnings ++ history.steps.filterMap Step.skipped? := by
    rw [Console.log_follow, Log.warnings_foldl_note warns, History.warnings_events]
  rw [h.run_eq stops fits, ← hw]
  cases fault? with
  | none => rfl
  | some fault =>
    have warns' : (c.follow history).log.filter.Warns := by
      rwa [Console.log_follow, (Log.foldl_note _ _).1]
    exact (Log.warnings_foldl_note warns' [.cycle last.snapshot]).trans (List.append_nil _)

end LS8
