import LS8.Proofs.Invocations
import LS8.Proofs.LogViews

/-! Logging does not show in anything else. Sessions that differ in their filters alone give the same
answers, and calls that differ in what they ask for of the log end in the same way; and what each of them
logs is a selection from the log of everything. -/

namespace LS8

/-- What a reply comes to, apart from the log. -/
def Session.plain (reply : Answer × Session) : Answer × Machine × Sink :=
  (reply.1, reply.2.machine, reply.2.console.sink)

def Session.logged (reply : Answer × Session) : List Event := reply.2.console.log.events.toList

theorem Filter.admits_upTo (level : Level) (event : Event) :
    (Filter.upTo level).Admits event ↔ event.level.verbosity ≤ level.verbosity := by
  refine ⟨?_, fun le => ⟨List.nil_prefix, level, rfl, le⟩⟩
  rintro ⟨-, threshold, ht, le⟩
  cases ht
  exact le

section Session

variable (m : Machine) (sink : Sink) (requests : List Request)

/-- The log of everything tells what each filter leaves. -/
theorem Session.transcript_eq (f : Filter) :
    transcript ⟨m, sink, .empty f⟩ requests =
      (transcript ⟨m, sink, .empty (.upTo .trace)⟩ requests).map fun reply =>
        (reply.1, reply.2.under f) := by
  have h := transcript_under (s := ⟨m, sink, .empty (.upTo .trace)⟩) Log.full_empty f requests
  rw [under, Console.under, Log.empty_under] at h
  exact h

theorem Session.plain_transcript (f g : Filter) :
    (transcript ⟨m, sink, .empty f⟩ requests).map plain =
      (transcript ⟨m, sink, .empty g⟩ requests).map plain := by
  rw [transcript_eq m sink requests f, transcript_eq m sink requests g, List.map_map, List.map_map]
  rfl

theorem Session.logged_transcript (level : Level) :
    (transcript ⟨m, sink, .empty (.upTo level)⟩ requests).map logged =
      (transcript ⟨m, sink, .empty (.upTo .trace)⟩ requests).map fun reply =>
        (logged reply).filter (·.level.verbosity ≤ level.verbosity) := by
  rw [transcript_eq m sink requests (.upTo level), List.map_map]
  refine List.map_congr_left fun reply _ => ?_
  show (Array.filter _ _).toList = _
  rw [Array.toList_filter]
  exact List.filter_congr fun event _ => decide_eq_decide.mpr (Filter.admits_upTo level event)

end Session

theorem Failure.account_of_error (failure : Failure) :
    "Error: ".toList <+: (account (.error failure)).toList := by
  obtain ⟨message, _ | cause⟩ := failure
  · show _ <+: ("Error: " ++ message).toList
    rw [String.toList_append]
    exact List.prefix_append _ _
  · show _ <+: ("Error: " ++ message ++ "\n\nCaused by:\n    " ++ cause).toList
    simp only [String.toList_append, List.append_assoc]
    exact List.prefix_append _ _

/-- Calls that ask for the same program and memory end in the same way, with a trace or without one and
whatever the directive. What they log is taken from the log of everything. -/
theorem Report.ofCall_withTrace (i : Invocation) (read : String → FileContent) :
    ∃ code output records ending,
      (code = 0 ∧ ending = "" ∨ code = 1 ∧ "Error: ".toList <+: String.toList ending) ∧
      ∀ arguments trace directive?, Invocation.ofArguments arguments = .ok (i.withTrace trace) →
        ∃ shown, List.Sublist shown records ∧ (directive? = some "trace" → shown = records) ∧
          Report.ofCall arguments directive? read =
            ⟨code, output, String.join (shown.map Event.record) ++ ending⟩ := by
  let all := i.execute (read i.program) (.upTo .trace)
  have ends : Failure.exitCode all.1 = 0 ∧ Failure.account all.1 = "" ∨
      Failure.exitCode all.1 = 1 ∧ "Error: ".toList <+: (Failure.account all.1).toList := by
    cases all.1 with
    | ok => exact .inl ⟨rfl, rfl⟩
    | error failure => exact .inr ⟨rfl, failure.account_of_error⟩
  refine ⟨_, all.2.sink.text, all.2.log.events.toList, _, ends, fun arguments trace directive? asked =>
    ⟨_, List.filter_sublist, ?_, Report.ofCall_eq asked directive? read⟩⟩
  rintro rfl
  have everything : Filter.choose trace (some "trace") = .upTo .trace :=
    (by decide : Filter.ofDirective "trace" = .upTo .trace)
  refine List.filter_eq_self.mpr fun event _ => ?_
  rw [show Filter.choose (i.withTrace trace).trace (some "trace") = _ from everything]
  exact decide_eq_true event.admitted_by_trace

/-- Logging is neutral. Sessions that differ in their filters give the same answers and leave the same
machines and the same output, and at each level they log what is no more verbose. Calls that differ in a
request for a trace or in the directive differ in nothing but the records in front of the ending. -/
theorem Log.neutral :
    (∀ m sink requests,
      (∀ f g, (Session.transcript ⟨m, sink, .empty f⟩ requests).map Session.plain =
        (Session.transcript ⟨m, sink, .empty g⟩ requests).map Session.plain) ∧
      ∀ level, (Session.transcript ⟨m, sink, .empty (.upTo level)⟩ requests).map Session.logged =
        (Session.transcript ⟨m, sink, .empty (.upTo .trace)⟩ requests).map fun reply =>
          (Session.logged reply).filter (·.level.verbosity ≤ level.verbosity)) ∧
    (∀ arguments, "--trace" ∉ arguments.takeWhile (· ≠ "--") →
      Invocation.ofArguments ("--trace" :: arguments) =
        (Invocation.ofArguments arguments).map (·.withTrace true)) ∧
    ∀ read,
      (∀ arguments stop directive?, Invocation.ofArguments arguments = .error stop →
        Report.ofCall arguments directive? read = stop.report) ∧
      ∀ i, ∃ code output records ending,
        (code = 0 ∧ ending = "" ∨ code = 1 ∧ "Error: ".toList <+: String.toList ending) ∧
        ∀ arguments trace directive?,
          Invocation.ofArguments arguments = .ok (Invocation.withTrace i trace) →
          ∃ shown, List.Sublist shown records ∧ (directive? = some "trace" → shown = records) ∧
            Report.ofCall arguments directive? read =
              ⟨code, output, String.join (shown.map Event.record) ++ ending⟩ := by
  refine ⟨fun m sink requests => ⟨Session.plain_transcript m sink requests,
    Session.logged_transcript m sink requests⟩, fun _ => Invocation.ofArguments_traced,
    fun read => ⟨fun arguments stop directive? refused => ?_, fun i => Report.ofCall_withTrace i read⟩⟩
  rw [Report.ofCall, refused]

/-- A program that prints once and then fails, and arguments that name no program. -/
theorem Log.neutral_failing :
    let read (_ : String) : FileContent :=
      .ok "11111111\n01000111\n00000000\n01000111\n11111111\n".toUTF8
    (∃ code output ending, ∃ shown shown' : List Event,
      Report.ofCall ["print"] (some "off") read =
        ⟨code, output, String.join (shown.map Event.record) ++ ending⟩ ∧
      Report.ofCall ["--trace", "print"] (some "ls8::computer=debug") read =
        ⟨code, output, String.join (shown'.map Event.record) ++ ending⟩) ∧
      Report.ofCall ["--trace"] none read = Report.ofCall [] (some "trace") read := by
  intro read
  obtain ⟨-, traced, calls⟩ := neutral
  obtain ⟨stopped, ended⟩ := calls read
  have asked : Invocation.ofArguments ["print"] =
      .ok (Invocation.withTrace ⟨"print", 256, false⟩ false) := by decide
  have asked' : Invocation.ofArguments ["--trace", "print"] =
      .ok (Invocation.withTrace ⟨"print", 256, false⟩ true) := by
    rw [traced ["print"] (by decide), asked]
    rfl
  obtain ⟨code, output, records, ending, -, same⟩ := ended ⟨"print", 256, false⟩
  obtain ⟨shown, -, -, one⟩ := same _ _ (some "off") asked
  obtain ⟨shown', -, -, other⟩ := same _ _ (some "ls8::computer=debug") asked'
  have refused : Invocation.ofArguments [] = .error (.misuse .missingProgram) := by decide
  have refused' : Invocation.ofArguments ["--trace"] = .error (.misuse .missingProgram) := by
    rw [traced [] (by decide), refused]
    rfl
  refine ⟨⟨code, output, ending, shown, shown', one, other⟩, ?_⟩
  rw [stopped _ _ none refused', stopped _ _ (some "trace") refused]

end LS8
