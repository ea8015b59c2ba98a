import LS8.Proofs.Running

/-! Runs with limited room for output. Such a run is the one with unlimited room, or it is that one
up to the print whose line does not fit. -/

namespace LS8

theorem Machine.accepted_run_unlimited {m last : Machine} {history : History}
    {fault? : Option Fault} (h : Execution m history last) (stops : last.Stops fault?) (log : Log) :
    (m.run ⟨.unlimited, log⟩).console.sink.accepted.toList = history.output :=
  h.accepted_run stops (Sink.fits_of_unlimited rfl _)

theorem History.RefusedAt.room_mem {h before after : History} {room : Nat} {n : Machine}
    {effect : Effect} (hr : h.RefusedAt (.ofRoom room) before n effect after) :
    before.output.length ≤ room ∧ room < (before.output ++ effect.output).length := by
  have hfits := Sink.fits_iff_length_le (show (Sink.ofRoom room).room = some room from rfl)
  constructor
  · exact (hfits _).mp hr.fits
  · have hn : ¬ (Sink.ofRoom room).Fits (before.output ++ effect.output) :=
      fun hf => hr.refused (Sink.fits_append.mp hf).2
    rw [hfits] at hn
    omega

/-- A sink of limited room against one that takes all output. If there is room for the whole output
of the run, they make no difference. Else the sink accepts as much of it as there is room for, and
the machine is left running as it comes, in the unlimited run, to the print whose line holds the
first byte that was not accepted. -/
theorem Machine.run_ofRoom (m : Machine) (room : Nat) (log : Log) :
    let whole := m.run ⟨.unlimited, log⟩
    let printed := whole.console.sink.accepted.toList
    let bounded := m.run ⟨.ofRoom room, log⟩
    (printed.length ≤ room →
      bounded.result = whole.result ∧ bounded.machine = whole.machine ∧
        bounded.console.sink.accepted.toList = printed) ∧
    (room < printed.length →
      bounded.result = .error .outputClosed ∧
        bounded.console.sink.accepted.toList = printed.take room ∧
        bounded.machine.status = .running ∧
        ∃ before register value after c,
          Execution m before bounded.machine ∧
          whole = bounded.machine.runFrom c (.ofSteps before.steps) ∧
          c.sink = Sink.unlimited.offer before.output ∧
          bounded.machine.memory.fetch bounded.machine.pc = .ok (.print register) ∧
          bounded.machine.registers.read register = .ok value ∧
          printed = before.output ++ outputLine value ++ after ∧
          before.output.length ≤ room ∧
          room < (before.output ++ outputLine value).length) := by
  intro whole printed bounded
  obtain ⟨history, last, fault?, he, hs⟩ := m.exists_execution
  have hw : whole = _ := he.run_eq hs (Sink.fits_of_unlimited rfl _)
  have hp : printed = history.output := accepted_run_unlimited he hs log
  have hfits := Sink.fits_iff_length_le (show (Sink.ofRoom room).room = some room from rfl)
  rw [hp]
  constructor
  · intro le
    have fits := (hfits _).mpr le
    have hb : bounded = _ := he.run_eq hs fits
    exact ⟨by rw [hb, hw]; rfl, by rw [hb, hw]; rfl, he.accepted_run hs fits⟩
  · intro lt
    have refused : ¬ (Sink.ofRoom room).Fits history.output := by
      rw [hfits]
      omega
    obtain ⟨before, n, effect, after, hr⟩ := History.exists_refusedAt refused
    obtain ⟨value, rfl⟩ := Effect.printed_of_not_fits hr.refused
    have hb : bounded = _ := (he.run_eq_of_refusedAt hr).1
    obtain ⟨hn, running, next, ok, _⟩ := (hr.eq ▸ he).at_cycle
    obtain ⟨register, hfetch, hread⟩ := print_of_cycle ok
    obtain ⟨hle, hlt⟩ := hr.room_mem
    have hcut : history.output.take room = (before.output ++ outputLine value).take room := by
      rw [hr.output_eq, List.take_append_of_le_length (Nat.le_of_lt hlt)]
      rfl
    refine ⟨by rw [hb], ?_, by rw [hb]; exact running, before, register, value, after.output,
      Console.follow ⟨.unlimited, log⟩ before, ?_, ?_, ?_, ?_, ?_, hr.output_eq, hle, hlt⟩
    · rw [hb, Console.sink_follow, Sink.accepted_offer_ofRoom, hcut, History.output_append,
        History.output_singleton]
      rfl
    · rw [hb]
      exact hn
    · rw [hb]
      exact (hn.runFrom_eq (Sink.fits_of_unlimited rfl _) .empty).trans
        (congrArg _ (Summary.foldl_count [] _))
    · exact Console.sink_follow _ before
    · rw [hb]
      exact hfetch
    · rw [hb]
      exact hread

/-- Room for both lines, and room that ends within the second one. -/
theorem Machine.run_ofRoom_two_lines :
    let m : Machine := ⟨.zero, 0, ⟨#[0x82, 0, 72, 0x47, 0, 0x47, 0, 0x01]⟩, .running⟩
    let lines : List UInt8 := [0x37, 0x32, 0x0A, 0x37, 0x32, 0x0A]
    let exact := m.run ⟨.ofRoom 6, .empty .off⟩
    let short := m.run ⟨.ofRoom 4, .empty .off⟩
    exact.result = .ok ⟨4, #[]⟩ ∧ exact.console.sink.accepted.toList = lines ∧
      short.result = .error .outputClosed ∧ short.machine.pc = 5 ∧
      short.console.sink.accepted.toList = lines.take 4 := by
  intro m lines exact short
  have hp : (m.run ⟨.unlimited, .empty .off⟩).console.sink.accepted.toList = lines := by
    decide +kernel
  have hl : (m.run ⟨.unlimited, .empty .off⟩).console.sink.accepted.toList.length = 6 := by
    decide +kernel
  obtain ⟨hr, -, ho⟩ := (run_ofRoom m 6 (.empty .off)).1 (Nat.le_of_eq hl)
  obtain ⟨hr', ho', -⟩ := (run_ofRoom m 4 (.empty .off)).2 (hl ▸ (by decide : 4 < 6))
  refine ⟨hr.trans (by decide +kernel), ho.trans hp, hr', ?_, ho'.trans ?_⟩
  · decide +kernel
  · rw [hp]

end LS8
