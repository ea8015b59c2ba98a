import LS8.Proofs.DataIndependence
import LS8.Proofs.Finality
import LS8.Proofs.PrintedLines
import LS8.Proofs.RunRecords
import Mathlib.Data.List.Forall2

/-! The values that a run prints, and their way back out of its output. Each print shows the byte that its
register holds at that cycle, as a decimal numeral on a line of its own. So the output, cut at its line
feeds and read line by line, gives the values again, and no others can have been printed. -/

namespace LS8

/-- The value that a cycle on this machine prints: if a print stands at the program counter, the byte that
its register holds. -/
def Machine.printed? (m : Machine) : Option UInt8 :=
  match m.memory.fetch m.pc with
  | .ok (.print register) => (m.registers.read register).toOption
  | .ok _ | .error _ => none

/-- Reads output back: what stands before each line feed is a numeral. -/
def readLines (bytes : List UInt8) : Except NumeralFault (List Nat) :=
  (bytes.splitOn 0x0A).dropLast.mapM fun line => readNumeral 10 255 (line.map Char.ofUInt8)

theorem readNumeral_decimalBytes (value : UInt8) :
    readNumeral 10 255 ((decimalBytes value).map Char.ofUInt8) = .ok value.toNat := by
  rw [map_ofUInt8_decimalBytes, readNumeral_eq_ok_iff]
  refine ⟨Nat.toDigits_ne_nil, fun c => isDigit_of_mem_toDigits (by decide) (by decide), ?_, ?_⟩
  · exact (numeralValue_toDigits (by decide) (by decide) _).symm
  · exact Nat.le_of_lt_succ value.toNat_lt

theorem splitOn_flatMap_outputLine (values : List UInt8) :
    (values.flatMap outputLine).splitOn 0x0A = values.map decimalBytes ++ [[]] := by
  induction values with
  | nil => rfl
  | cons value values ih =>
    have line : outputLine value = decimalBytes value ++ [0x0A] := rfl
    have noFeed : 0x0A ∉ decimalBytes value := feed_not_mem_toDigits value.toNat
    rw [List.flatMap_cons, line, List.append_assoc, List.singleton_append,
      List.splitOn_append_cons_self_of_not_mem noFeed, ih]
    rfl

theorem readLines_flatMap_outputLine (values : List UInt8) :
    readLines (values.flatMap outputLine) = .ok (values.map UInt8.toNat) := by
  rw [readLines, splitOn_flatMap_outputLine, List.dropLast_concat, List.mapM_map]
  simp only [Function.comp_def, readNumeral_decimalBytes]
  exact List.mapM_pure

theorem outputLines_inj {values others : List UInt8}
    (h : values.flatMap outputLine = others.flatMap outputLine) : values = others := by
  have same := readLines_flatMap_outputLine values
  rw [h, readLines_flatMap_outputLine] at same
  exact ((List.map_inj_right fun _ _ => UInt8.toNat_inj.mp).mp (Except.ok.inj same)).symm

section Cycle

variable {m next : Machine}

theorem Machine.printed?_of_ok {effect : Effect} (h : m.cycle = .ok (effect, next)) :
    m.printed? = effect.printed? := by
  obtain ⟨i, hf, hc⟩ := carriedOut_of_cycle h
  rw [printed?, hf]
  cases hc with
  | print read => simp only [read]; rfl
  | unknown | halt | loadImmediate | arithmetic => rfl

theorem Machine.printed?_of_error {fault : Fault} (h : m.cycle = .error fault) :
    m.printed? = none := by
  rw [printed?]
  cases hf : m.memory.fetch m.pc with
  | error => rfl
  | ok i =>
    cases i with
    | print register =>
      cases hr : m.registers.read register with
      | error =>
        simp only [hr]
        rfl
      | ok value =>
        rw [cycle, hf] at h
        change m.execute (.print register) = _ at h
        rw [execute, hr] at h
        cases h
    | unknown | halt | loadImmediate | arithmetic => rfl

end Cycle

theorem Execution.filterMap_printed? {m last : Machine} {history : History}
    (h : Execution m history last) :
    (history.map Prod.fst).filterMap Machine.printed? = history.values := by
  induction h with
  | refl => rfl
  | @cycle m _ _ effect history _ ok _ ih =>
    rw [List.map_cons, List.filterMap_cons, Machine.printed?_of_ok ok, ih]
    rfl

theorem Machine.length_printed?_of_ok {m next : Machine} {effect : Effect}
    (h : m.cycle = .ok (effect, next)) :
    effect.printed?.toList.length = printCount [effect.step] := by
  have hc := m.cycled
  rw [h] at hc
  cases hc with
  | @item i => cases i <;> rfl
  | halt => rfl

theorem Execution.length_values {m last : Machine} {history : History}
    (h : Execution m history last) : history.values.length = printCount history.steps := by
  induction h with
  | refl => rfl
  | @cycle m _ _ effect history _ ok _ ih =>
    calc (History.values ((m, effect) :: history)).length
        = effect.printed?.toList.length + history.values.length := by
          cases effect <;> simp [History.values, Effect.printed?, Nat.add_comm]
      _ = printCount [effect.step] + printCount history.steps := by
          rw [Machine.length_printed?_of_ok ok, ih]
      _ = printCount (History.steps ((m, effect) :: history)) := List.count_append.symm

theorem Machine.result_ne_outputClosed {m : Machine} {c : Console} (unlimited : c.sink.room = none) :
    (m.run c).result ≠ .error .outputClosed := by
  obtain ⟨history, last, fault?, he, hs⟩ := m.exists_execution
  rw [ne_eq, he.result_eq_outputClosed_iff hs, not_not]
  exact Sink.fits_of_unlimited unlimited _

/-- The values of the prints among the cycles that a run attempts. -/
def Machine.printed (m : Machine) (c : Console) : List UInt8 :=
  (m.attempts c).filterMap printed?

/-- With room for all output, a run shows a line for each print, and it prints in no cycle that fails. -/
theorem Machine.printed_of_unlimited {m : Machine} {c : Console} (unlimited : c.sink.room = none) :
    (m.run c).console.sink.accepted.toList =
        c.sink.accepted.toList ++ (m.printed c).flatMap outputLine ∧
      (m.printed c).length = printCount (m.completed c) := by
  obtain ⟨history, he, hdone, ha⟩ := m.exists_attempts c .empty
  have he : Execution m history (m.run c).machine := he
  obtain ⟨fault?, stops, reason⟩ := exists_stops_of_run (result_ne_outputClosed unlimited)
  have values : m.printed c = history.values := by
    rw [printed, ha, List.filterMap_append, he.filterMap_printed?]
    cases hr : (m.run c).result with
    | ok =>
      rw [show (m.runFrom c .empty).result = _ from hr]
      exact List.append_nil _
    | error fault =>
      obtain rfl := (reason fault).mp hr
      cases stops with
      | failing running error =>
        rw [show (m.runFrom c .empty).result = _ from hr]
        have silent : (m.runFrom c .empty).machine.printed? = none := printed?_of_error error
        simp [silent]
  constructor
  · rw [he.accepted_run stops (Sink.fits_of_unlimited unlimited _), History.output_eq_flatten, values,
      List.flatMap_def]
  · rw [values, hdone, he.length_values]

/-- The output of a run, also of one that fails, has a line for each print, in order: the decimal numeral of
the value printed and a line feed. Cut at the line feeds and read in base ten it gives back the values, so
runs with the same output have printed the same values. -/
theorem Machine.output_decodes (m : Machine) (log : Log) :
    let c : Console := ⟨.unlimited, log⟩
    let output := (m.run c).console.sink.accepted.toList
    (∃ numerals, List.Forall₂ Decimal numerals (m.printed c) ∧
        output = numerals.flatMap (· ++ [0x0A]) ∧ output.splitOn 0x0A = numerals ++ [[]]) ∧
      (m.printed c).length = printCount (m.completed c) ∧
      readLines output = .ok ((m.printed c).map UInt8.toNat) ∧
      ∀ (n : Machine) (log' : Log), let d : Console := ⟨.unlimited, log'⟩
        (n.run d).console.sink.accepted.toList = output → n.printed d = m.printed c := by
  intro c output
  have shown {n : Machine} {log' : Log} : (n.run ⟨.unlimited, log'⟩).console.sink.accepted.toList =
      (n.printed ⟨.unlimited, log'⟩).flatMap outputLine :=
    (printed_of_unlimited rfl).1
  have ho : output = (m.printed c).flatMap outputLine := shown
  refine ⟨⟨(m.printed c).map decimalBytes, ?_, ?_, ?_⟩, (printed_of_unlimited rfl).2, ?_, ?_⟩
  · exact List.forall₂_map_left_iff.mpr (List.forall₂_same.mpr fun value _ => decimal_decimalBytes value)
  · rw [ho, List.flatMap_map]
    rfl
  · rw [ho, splitOn_flatMap_outputLine]
  · rw [ho, readLines_flatMap_outputLine]
  · intro n log' d same
    exact outputLines_inj (shown.symm.trans (same.trans ho))

/-- A product and a zero, printed before a register that does not exist; and the same lines from a run that
halts. -/
theorem Machine.output_decodes_two_ways :
    let m : Machine :=
      ⟨.zero, 0, ⟨#[0x82, 0, 8, 0x82, 1, 9, 0xA2, 0, 1, 0x47, 0, 0x47, 2, 0x47, 9]⟩, .running⟩
    let n : Machine := ⟨.zero, 0, ⟨#[0x82, 3, 72, 0xFF, 0x47, 3, 0x47, 4, 0x01]⟩, .running⟩
    let c : Console := ⟨.unlimited, .empty .off⟩
    (m.run c).result = .error (.registerOutOfBounds 9) ∧ (n.run c).result = .ok ⟨5, #[(3, 0xFF)]⟩ ∧
      (m.run c).console.sink.accepted.toList = "72\n0\n".toList.map Char.toUInt8 ∧
      (n.run c).console.sink.accepted.toList = (m.run c).console.sink.accepted.toList ∧
      readLines (m.run c).console.sink.accepted.toList = .ok [72, 0] ∧
      m.printed c = [72, 0] ∧ n.printed c = m.printed c := by
  intro m n c
  have printed : m.printed c = [72, 0] := by decide +kernel
  have same : (n.run c).console.sink.accepted.toList = (m.run c).console.sink.accepted.toList := by
    decide +kernel
  obtain ⟨-, -, read, others⟩ := output_decodes m (.empty .off)
  refine ⟨?_, ?_, ?_, same, read.trans ?_, printed, others n (.empty .off) same⟩
  · decide +kernel
  · decide +kernel
  · decide +kernel
  · exact congrArg (fun values => Except.ok (values.map UInt8.toNat)) printed

end LS8
