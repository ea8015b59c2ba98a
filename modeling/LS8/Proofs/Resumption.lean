import LS8.Proofs.SweepRun

/-! Runs that are taken up again after the sink refused output. The print that was refused is carried
out once more, and apart from the front of its line nothing is done or shown twice. -/

namespace LS8

theorem Machine.Stops.finish_ne_outputClosed {m : Machine} {fault? : Option Fault}
    (stops : m.Stops fault?) (c : Console) (s : Summary) :
    (m.finish fault? c s).result ≠ .error .outputClosed := by
  intro h
  cases stops with
  | halted => cases h
  | failing _ error =>
    cases h
    exact m.cycle_ne_outputClosed error

/-- A run fails for want of room just if it comes to an output that the sink refuses. -/
theorem Execution.result_eq_outputClosed_iff {m last : Machine} {history : History}
    {fault? : Option Fault} {c : Console} (h : Execution m history last)
    (stops : last.Stops fault?) :
    (m.run c).result = .error .outputClosed ↔ ¬ c.sink.Fits history.output := by
  constructor
  · intro closed fits
    rw [h.run_eq stops fits] at closed
    exact stops.finish_ne_outputClosed _ _ closed
  · intro refused
    obtain ⟨before, n, effect, after, hr⟩ := History.exists_refusedAt refused
    rw [(h.run_eq_of_refusedAt hr).1]

def Effect.printed? : Effect → Option UInt8
  | .printed value => some value
  | .skipped _ _ | .halted _ | .computed _ => none

def History.values (h : History) : List UInt8 := h.filterMap fun (_, effect) => effect.printed?

theorem History.values_append (before after : History) :
    History.values (before ++ after) = before.values ++ after.values :=
  List.filterMap_append

theorem History.output_eq_flatten (h : History) : h.output = (h.values.map outputLine).flatten := by
  induction h with
  | nil => rfl
  | cons cycle h ih =>
    obtain ⟨m, effect⟩ := cycle
    have hc : History.output ((m, effect) :: h) = effect.output ++ History.output h := rfl
    rw [hc, ih]
    cases effect <;> rfl

/-- Pieces that show all of the lines, in order. Each starts at the beginning of a line. All but the
last end within a line or before it, and the next one shows that line again. -/
inductive Covered : List (List UInt8) → List (List UInt8) → Prop
  | whole (lines : List (List UInt8)) : Covered lines [lines.flatten]
  | cut {done rest pieces : List (List UInt8)} {line front : List UInt8}
      (isFront : front <+: line) (short : front.length < line.length)
      (again : Covered (line :: rest) pieces) :
      Covered (done ++ line :: rest) ((done.flatten ++ front) :: pieces)

structure Call where
  machine : Machine
  console : Console

def Call.turn (k : Call) : Turn Summary := k.machine.run k.console

/-- The bytes that the sink accepted during the call. -/
def Call.output (k : Call) : List UInt8 :=
  k.turn.console.sink.accepted.toList.drop k.console.sink.accepted.size

def Call.completed (k : Call) : List Step := k.machine.completed k.console

/-- Runs with the given consoles, each of the machine that the one before it left. -/
def Machine.calls (m : Machine) : List Console → List Call
  | [] => []
  | c :: consoles => ⟨m, c⟩ :: (m.run c).machine.calls consoles

def Machine.afterCalls (m : Machine) (consoles : List Console) : Machine :=
  consoles.foldl (fun m c => (m.run c).machine) m

theorem Call.output_eq {k : Call} {bytes : List UInt8}
    (h : k.turn.console.sink.accepted.toList = k.console.sink.accepted.toList ++ bytes) :
    k.output = bytes := by
  rw [output, h]
  exact List.drop_left' Array.length_toList

theorem Execution.call_of_refused {m last : Machine} {history : History} {c : Console}
    (h : Execution m history last) (refused : ¬ c.sink.Fits history.output) :
    ∃ before rest value values front,
      history = before ++ rest ∧ Execution (m.run c).machine rest last ∧
        m.completed c = before.steps ∧ rest.values = value :: values ∧
        front <+: outputLine value ∧ front.length < (outputLine value).length ∧
        (Call.mk m c).output = before.output ++ front := by
  obtain ⟨before, n, effect, after, hr⟩ := History.exists_refusedAt refused
  obtain ⟨value, rfl⟩ := Effect.printed_of_not_fits hr.refused
  obtain ⟨hrun, hdone⟩ := h.run_eq_of_refusedAt hr
  obtain ⟨-, running, next, ok, rest⟩ := (hr.eq ▸ h).at_cycle
  obtain ⟨front, hfront, short, ha⟩ := Sink.accepted_offer_of_not_fits hr.refused
  have hs : (m.run c).console.sink = (c.sink.offer before.output).offer (outputLine value) := by
    rw [hrun, Console.sink_follow, History.output_append, History.output_singleton,
      Sink.offer_append]
    rfl
  have ho : (Call.mk m c).output = before.output ++ front := by
    refine Call.output_eq ?_
    rw [Call.turn, hs, ← List.append_assoc, ← Sink.accepted_offer_of_fits hr.fits]
    exact ha
  refine ⟨before, (n, .printed value) :: after, value, after.values, front, hr.eq, ?_, hdone, rfl,
    hfront, short, ho⟩
  rw [hrun]
  exact .cycle running ok rest

/-- How an execution is shared out among calls that are refused output, and the one after them that
is not: what the calls have completed, and what is left for the last one. -/
theorem Execution.shared_out {m last : Machine} {history : History} {fault? : Option Fault}
    {failed : List Console} {c : Console} (h : Execution m history last)
    (stops : last.Stops fault?)
    (interrupted : ∀ k ∈ m.calls failed, k.turn.result = .error .outputClosed)
    (finished : ((m.afterCalls failed).run c).result ≠ .error .outputClosed) :
    ∃ lost rest, history = lost ++ rest ∧ Execution (m.afterCalls failed) rest last ∧
      c.sink.Fits rest.output ∧ (m.calls failed).flatMap Call.completed = lost.steps ∧
      Covered (history.values.map outputLine)
        ((m.calls failed).map Call.output ++ [rest.output]) := by
  induction failed generalizing m history with
  | nil =>
    have fits : c.sink.Fits history.output :=
      Decidable.byContradiction fun refused =>
        finished ((h.result_eq_outputClosed_iff stops).mpr refused)
    refine ⟨[], history, rfl, h, fits, rfl, ?_⟩
    rw [History.output_eq_flatten]
    exact .whole _
  | cons c' failed ih =>
    -- The first call leaves `after`, which the later ones share out among them. They start with the
    -- line of `value` again, so the piece of the first call is cut there.
    obtain ⟨hc, hcalls⟩ := List.forall_mem_cons.mp interrupted
    have refused := (h.result_eq_outputClosed_iff stops).mp hc
    obtain ⟨before, after, value, values, front, rfl, ha, hdone, hv, hfront, short, ho⟩ :=
      h.call_of_refused refused
    obtain ⟨lost, rest, rfl, hrest, fits, hlost, hcov⟩ := ih ha hcalls finished
    refine ⟨before ++ lost, rest, (List.append_assoc ..).symm, hrest, fits, ?_, ?_⟩
    · rw [Machine.calls, List.flatMap_cons, hlost, Call.completed, hdone, History.steps_append]
    · rw [hv, List.map_cons] at hcov
      rw [Machine.calls, List.map_cons, ho, History.output_eq_flatten, History.values_append, hv,
        List.map_append, List.map_cons, List.cons_append]
      exact .cut hfront short hcov

/-- Calls that are all refused output, but for the last, leave the machine as one run does that is
refused nothing, and the last call ends as that run does. What the earlier calls have completed is
missing from the summary of the last, and nothing else is. -/
theorem Machine.run_resumed (m : Machine) (failed : List Console) (last : Console) (log : Log)
    (interrupted : ∀ k ∈ m.calls failed, k.turn.result = .error .outputClosed)
    (finished : ((m.afterCalls failed).run last).result ≠ .error .outputClosed) :
    let whole := m.run ⟨.unlimited, log⟩
    let final : Call := ⟨m.afterCalls failed, last⟩
    let completed := (m.calls failed).flatMap Call.completed
    final.turn.machine = whole.machine ∧
      (∀ fault, final.turn.result = .error fault ↔ whole.result = .error fault) ∧
      (∀ summary, final.turn.result = .ok summary → ∃ total, whole.result = .ok total ∧
        total.cycles = completed.length + summary.cycles ∧
        total.skipped.toList = completed.filterMap Step.skipped? ++ summary.skipped.toList) ∧
      ∃ values : List UInt8, let lines := values.map outputLine
        whole.console.sink.accepted.toList = lines.flatten ∧
        Covered lines ((m.calls failed).map Call.output ++ [final.output]) := by
  intro whole final completed
  obtain ⟨history, stop, fault?, he, hs⟩ := m.exists_execution
  obtain ⟨lost, rest, hsplit, hrest, fits, hlost, hcov⟩ := he.shared_out hs interrupted finished
  have hw : whole = _ := he.run_eq hs (Sink.fits_of_unlimited rfl _)
  have hf : final.turn = _ := hrest.run_eq hs fits
  have ho : final.output = rest.output := Call.output_eq (hrest.accepted_run hs fits)
  have hsteps : history.steps = completed ++ rest.steps := by
    rw [hsplit, History.steps_append, ← hlost]
  refine ⟨by rw [hf, hw]; rfl, fun fault => ?_, fun summary ok => ?_, history.values, ?_, ?_⟩
  · rw [hf, hw]
    cases fault? <;> simp [finish]
  · cases hs with
    | failing =>
      rw [hf] at ok
      cases ok
    | halted =>
      rw [hf] at ok
      cases ok
      refine ⟨_, by rw [hw]; rfl, ?_, ?_⟩
      · rw [Summary.ofSteps, hsteps, List.length_append]
        rfl
      · rw [Summary.ofSteps, hsteps, List.filterMap_append]
        rfl
  · rw [he.accepted_run hs (Sink.fits_of_unlimited rfl _), History.output_eq_flatten]
    rfl
  · rw [ho]
    exact hcov

/-- The first line is cut in its first attempt, the second line in the second call. -/
theorem Machine.run_resumed_two_cuts :
    let m : Machine := ⟨.zero, 0, ⟨#[0x82, 0, 72, 0x47, 0, 0xFF, 0x47, 0, 0x01]⟩, .running⟩
    let failed : List Console := [⟨.ofRoom 1, .empty .off⟩, ⟨.ofRoom 4, .empty .off⟩]
    let final : Call := ⟨m.afterCalls failed, ⟨.unlimited, .empty .off⟩⟩
    (∀ k ∈ m.calls failed, k.turn.result = .error .outputClosed) ∧
      final.turn.result ≠ .error .outputClosed ∧ final.turn.result = .ok ⟨2, #[]⟩ ∧
      (m.calls failed).map Call.output = [[0x37], [0x37, 0x32, 0x0A, 0x37]] ∧
      final.output = [0x37, 0x32, 0x0A] ∧
      final.turn.machine = (m.run ⟨.unlimited, .empty .off⟩).machine := by
  intro m failed final
  have interrupted : ∀ k ∈ m.calls failed, k.turn.result = .error .outputClosed := by
    decide +kernel
  have finished : final.turn.result ≠ .error .outputClosed := by decide +kernel
  obtain ⟨same, -⟩ := run_resumed m failed _ (.empty .off) interrupted finished
  refine ⟨interrupted, finished, ?_, ?_, ?_, same⟩
  all_goals decide +kernel

end LS8
