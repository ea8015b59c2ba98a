import LS8.Proofs.Invocations
import LS8.Proofs.LogViews
import LS8.Proofs.Padding
import LS8.Proofs.PlainRecords
import LS8.Proofs.RunRecords

/-! What a call reports. The file is read, the image in it is placed in a new machine, and the machine is
run. Where one of these is refused nothing is run; else the report shows the output of the run, what the
run has logged, and behind that why it failed, if it did. -/

namespace LS8

theorem FileContent.text_of_source (source : String) :
    FileContent.text (.ok source.toUTF8) = .ok source := by
  have decoded : String.fromUTF8? source.toUTF8 = some source := dif_pos source.isValidUTF8
  simp only [text, Bind.bind, Except.bind, decoded]
  rfl

theorem FileContent.text_of_not_valid {bytes : ByteArray} (invalid : ¬ bytes.IsValidUTF8) :
    FileContent.text (.ok bytes) = .error .notText := by
  have refused : String.fromUTF8? bytes = none := dif_neg invalid
  simp only [text, Bind.bind, Except.bind, refused]
  rfl

/-- What the file holds cannot be run: it is not read or not text, its text is no image, or the image does
not fit. -/
inductive Invocation.Refuses (i : Invocation) : FileContent → Prop
  | unreadable (reason : ReadFault) : Refuses i (.error reason)
  | notText {bytes : ByteArray} (invalid : ¬ bytes.IsValidUTF8) : Refuses i (.ok bytes)
  | noImage {source : String} {literal : Literal} (bad : Image.parse source = .error literal) :
      Refuses i (.ok source.toUTF8)
  | tooLong {source : String} {image : Image} (parsed : Image.parse source = .ok image)
      (long : i.memorySize < image.length) : Refuses i (.ok source.toUTF8)

/-- The file holds the text of an image that fits. -/
inductive Invocation.Takes (i : Invocation) : FileContent → Image → Prop
  | intro {source : String} {image : Image} (parsed : Image.parse source = .ok image)
      (fits : image.length ≤ i.memorySize) : Takes i (.ok source.toUTF8) image

theorem Invocation.refuses_or_takes (i : Invocation) (content : FileContent) :
    i.Refuses content ∨ ∃ image, i.Takes content image := by
  cases content with
  | error reason => exact .inl (.unreadable reason)
  | ok bytes =>
    by_cases valid : bytes.IsValidUTF8
    · obtain ⟨source, rfl⟩ : ∃ source : String, source.toUTF8 = bytes := ⟨⟨bytes, valid⟩, rfl⟩
      cases parsed : Image.parse source with
      | error literal => exact .inl (.noImage parsed)
      | ok image =>
        by_cases long : i.memorySize < image.length
        · exact .inl (.tooLong parsed long)
        · exact .inr ⟨image, .intro parsed (Nat.le_of_not_lt long)⟩
    · exact .inl (.notText valid)

theorem Image.load_of_source {source : String} {image : Image}
    (parsed : Image.parse source = .ok image) (path : String) (l : Log) :
    Image.load path (.ok source.toUTF8) l = (.ok image, l.note (.parsed image.length path)) := by
  have read : Image.ofFile path (.ok source.toUTF8) = .ok image := by
    rw [ofFile, FileContent.text_of_source]
    simp only [parsed]
    rfl
  simp only [load, read]

/-- A cycle that is begun is a cycle that the log of everything tells of. -/
theorem Invocation.execute_of_refuses {i : Invocation} {content : FileContent}
    (least : minimumMemorySize ≤ i.memorySize) (refused : i.Refuses content) :
    let all := i.execute content (.upTo .trace)
    (∃ failure, all.1 = .error failure) ∧ all.2.sink = .unlimited ∧
      ∀ before, .cycle before ∉ all.2.log.events := by
  intro all
  have unread {fault : ImageFault} (h : Image.ofFile i.program content = .error fault) :
      all = (.error (.ofImageFault fault), ⟨.unlimited, .empty (.upTo .trace)⟩) := by
    simp only [all, execute, Image.load, h]
  have nothing (before : Snapshot) : Event.cycle before ∉ (Log.empty (.upTo .trace)).events :=
    Array.not_mem_empty _
  cases refused with
  | unreadable reason =>
    rw [unread rfl]
    exact ⟨⟨_, rfl⟩, rfl, nothing⟩
  | notText invalid =>
    rw [unread (by rw [Image.ofFile, FileContent.text_of_not_valid invalid])]
    exact ⟨⟨_, rfl⟩, rfl, nothing⟩
  | noImage bad =>
    rw [unread (by rw [Image.ofFile, FileContent.text_of_source]; simp only [bad]; rfl)]
    exact ⟨⟨_, rfl⟩, rfl, nothing⟩
  | @tooLong source image parsed long =>
    let l : Log := (Log.empty (.upTo .trace)).note (.parsed image.length i.program)
    have tooLarge : (Machine.ofMemory ⟨Array.replicate i.memorySize 0⟩).load image ⟨.unlimited, l⟩ =
        ⟨.error (.programTooLarge image.length i.memorySize),
          .ofMemory ⟨Array.replicate i.memorySize 0⟩, ⟨.unlimited, l⟩⟩ := by
      simp [Machine.load, Machine.ofMemory, Memory.load, Memory.size, long]
    have ended : all = (.error ⟨s!"loading {i.program}",
        some (Fault.programTooLarge image.length i.memorySize).message⟩, ⟨.unlimited, l⟩) := by
      simp only [all, execute, Image.load_of_source parsed]
      exact runImage_of_load_error (Machine.ofSize_of_le least) tooLarge
    rw [ended]
    refine ⟨⟨_, rfl⟩, rfl, fun before mem => ?_⟩
    have noted : l.events.toList = [.parsed image.length i.program] :=
      Log.full_empty.events_foldl_note [.parsed image.length i.program]
    rw [← Array.mem_toList_iff, noted] at mem
    cases List.mem_singleton.mp mem

/-- A run does the same whatever the log, and notes the same events. -/
theorem Machine.exists_run_eq (m : Machine) : ∃ result last sink events, ∀ l : Log,
    m.run ⟨.unlimited, l⟩ = ⟨result, last, sink, List.foldl Log.note l events⟩ := by
  obtain ⟨history, last, fault?, he, hs⟩ := m.exists_execution
  have done (l : Log) : m.run ⟨.unlimited, l⟩ = last.finish fault?
      ⟨Sink.unlimited.offer history.output, history.events.foldl Log.note l⟩
      (.ofSteps history.steps) := by
    have followed : Console.follow ⟨.unlimited, l⟩ history =
        ⟨Sink.unlimited.offer history.output, history.events.foldl Log.note l⟩ :=
      congr (congrArg Console.mk (Console.sink_follow _ _)) (Console.log_follow _ _)
    rw [he.run_eq hs (Sink.fits_of_unlimited rfl _), followed]
  cases fault? with
  | none => exact ⟨_, _, _, history.events, done⟩
  | some fault =>
    refine ⟨.error fault, last, Sink.unlimited.offer history.output,
      history.events ++ [.cycle last.snapshot], fun l => (done l).trans ?_⟩
    rw [List.foldl_append]
    rfl

/-- A call on an image that fits carries out the run of the image in a new machine, and logs it. -/
theorem Invocation.execute_of_takes {i : Invocation} {content : FileContent} {image : Image}
    (least : minimumMemorySize ≤ i.memorySize) (taken : i.Takes content image) :
    let c : Console := ⟨.unlimited, .empty (.upTo .trace)⟩
    let all := i.execute content (.upTo .trace)
    ∃ fresh, Machine.ofSize i.memorySize = .ok fresh ∧ (fresh.load image c).result = .ok () ∧
      let ran := (fresh.load image c).machine.run c
      all.1 = i.ended ran.result ∧ all.2.sink = ran.console.sink ∧
        all.2.log.events.toList = .parsed image.length i.program :: .loaded image.length ::
          ran.console.log.events.toList := by
  intro c all
  obtain @⟨source, image, parsed, fits⟩ := taken
  let l : Log := (Log.empty (.upTo .trace)).note (.parsed image.length i.program)
  let placed : Machine := .ofMemory (.padded image i.memorySize)
  have loaded (c : Console) := Machine.load_zeros fits c
  refine ⟨_, Machine.ofSize_of_le least, by rw [loaded], ?_⟩
  -- the call has two records in its log before it runs, and the run does not look at them
  obtain ⟨result, last, sink, events, ran⟩ := placed.exists_run_eq
  have ended : all =
      (i.ended result, ⟨sink, events.foldl Log.note (l.note (.loaded image.length))⟩) := by
    simp only [all, execute, Image.load_of_source parsed]
    refine (runImage_of_load_ok (Machine.ofSize_of_le least) (loaded _)).trans ?_
    exact congrArg (fun turn : Turn Summary => (i.ended turn.result, turn.console)) (ran _)
  have alone : placed.run c =
      ⟨result, last, sink, events.foldl Log.note (.empty (.upTo .trace))⟩ := ran _
  rw [loaded, ended]
  dsimp only
  rw [alone]
  refine ⟨rfl, rfl, ?_⟩
  have first := Log.full_empty.events_foldl_note
    (.parsed image.length i.program :: .loaded image.length :: events)
  rw [Log.full_empty.events_foldl_note]
  exact first

theorem Event.target_inside (event : Event) : "ls8".toList <+: event.target.toList := by
  rcases event.target_eq with h | h <;> rw [h] <;> decide

theorem Filter.admits_traced (event : Event) : (choose true none).Admits event := by
  refine ⟨event.target_inside, .trace, rfl, ?_⟩
  cases event.level <;> decide

theorem Filter.admits_untraced (event : Event) :
    (choose false none).Admits event ↔ event.level = .warn := by
  have verbose : event.level.verbosity ≤ Level.warn.verbosity ↔ event.level = .warn := by
    cases event <;> simp [Event.level, Level.verbosity]
  refine Iff.trans ⟨?_, fun h => ⟨event.target_inside, .warn, rfl, h⟩⟩ verbose
  rintro ⟨-, level, hl, le⟩
  cases hl
  exact le

/-- Where nothing is said about the log, a call shows all of it in a trace, and else the warnings. -/
theorem Filter.filter_choose (trace : Bool) (events : List Event) :
    events.filter ((choose trace none).Admits ·) =
      if trace then events else events.filter (·.level = .warn) := by
  cases trace with
  | false => exact List.filter_congr fun event _ => decide_eq_decide.mpr (admits_untraced event)
  | true => exact List.filter_eq_self.mpr fun event _ => decide_eq_true (admits_traced event)

theorem Event.filter_ofSkips (skips : List (Nat × UInt8)) :
    (Event.ofSkips skips).filter (·.level = .warn) = Event.ofSkips skips := by
  refine List.filter_eq_self.mpr fun event mem => ?_
  obtain ⟨_, -, rfl⟩ := List.mem_map.mp mem
  rfl

theorem Event.records_ofSkips (skips : List (Nat × UInt8)) :
    (Event.ofSkips skips).map Event.record = skips.map warningLine := by
  rw [ofSkips, List.map_map]
  exact List.map_congr_left fun (address, byte) _ => record_skipped address byte

/-- The warnings of a run are about the bytes it skips, also if it fails in the end. -/
theorem Machine.warnings_run (m : Machine) :
    let c : Console := ⟨.unlimited, .empty (.upTo .trace)⟩
    (m.run c).console.log.events.toList.filter (·.level = .warn) =
      Event.ofSkips ((m.completed c).filterMap Step.skipped?) := by
  intro c
  obtain ⟨history, last, fault?, he, hs⟩ := m.exists_execution
  have fits : c.sink.Fits history.output := Sink.fits_of_unlimited rfl _
  have warned := he.warnings_run hs fits fun _ _ => Event.admitted_by_trace _
  rw [Event.filter_warn, he.completed_eq hs fits]
  exact congrArg Event.ofSkips warned

theorem Machine.output_ascii (m : Machine) (l : Log) :
    ∀ byte ∈ (m.run ⟨.unlimited, l⟩).console.sink.accepted.toList, byte < 0x80 := by
  obtain ⟨history, last, fault?, he, hs⟩ := m.exists_execution
  rw [he.accepted_run hs (Sink.fits_of_unlimited rfl _)]
  exact history.output_ascii

/-- A call reads a file, places the image in it in a new machine and runs that machine. Each size that is
accepted can be asked for. A file that is refused makes the call fail before the first cycle. Else the
output is that of the run, byte for byte; the warnings are about the bytes that the run skips, in order;
and if the run fails, the reason comes behind everything that was logged. -/
theorem Report.ofCall_run :
    (∀ text path size, parseMemorySize text = .ok size → path ≠ "" → ∀ trace,
      Invocation.ofArguments
          (["--memory-size=" ++ text] ++ (if trace then ["--trace"] else []) ++ ["--", path]) =
        .ok ⟨path, size, trace⟩) ∧
    ∀ arguments i read, Invocation.ofArguments arguments = .ok i →
      let report := Report.ofCall arguments none read
      let content := read i.program
      (i.Refuses content ∨ ∃ image, i.Takes content image) ∧
      (i.Refuses content →
        report.exitCode = 1 ∧ report.output = "" ∧
          ∀ before, .cycle before ∉ (i.execute content (.upTo .trace)).2.log.events) ∧
      ∀ image, i.Takes content image →
        ∃ fresh, Machine.ofSize i.memorySize = .ok fresh ∧
          let c : Console := ⟨.unlimited, .empty (.upTo .trace)⟩
          let placed := fresh.load image c
          let ran := placed.machine.run c
          let skipped := (placed.machine.completed c).filterMap Step.skipped?
          let shown :=
            if i.trace then .parsed image.length i.program :: .loaded image.length ::
              ran.console.log.events.toList
            else Event.ofSkips skipped
          placed.result = .ok () ∧ report.output.toUTF8 = ⟨ran.console.sink.accepted⟩ ∧
          (shown.filter (·.level = .warn)).map Event.record = skipped.map warningLine ∧
          (∀ summary, ran.result = .ok summary →
            report.exitCode = 0 ∧ report.errors = String.join (shown.map Event.record) ∧
              skipped = summary.skipped.toList) ∧
          ∀ fault, ran.result = .error fault →
            report.exitCode = 1 ∧
              report.errors = String.join (shown.map Event.record) ++
                s!"Error: running {i.program}\n\nCaused by:\n    {fault.message}" := by
  refine ⟨fun text path size accepted named trace =>
    Invocation.ofArguments_sized accepted named trace, fun arguments i read asked => ?_⟩
  intro report content
  let all := i.execute content (.upTo .trace)
  have least := Invocation.minimum_le_memorySize asked
  have told := ofCall_eq asked none read
  have code : report.exitCode = Failure.exitCode all.1 := congrArg exitCode told
  have output : report.output = all.2.sink.text := congrArg Report.output told
  have errors : report.errors = String.join ((all.2.log.events.toList.filter
      ((Filter.choose i.trace none).Admits ·)).map Event.record) ++ Failure.account all.1 :=
    congrArg Report.errors told
  refine ⟨i.refuses_or_takes content, fun refused => ?_, fun image taken => ?_⟩
  · obtain ⟨⟨failure, failed⟩, silent, nothing⟩ := Invocation.execute_of_refuses least refused
    exact ⟨code.trans (congrArg Failure.exitCode failed), output.trans (congrArg Sink.text silent),
      nothing⟩
  · obtain ⟨fresh, made, loaded, ended, sink, events⟩ := Invocation.execute_of_takes least taken
    refine ⟨fresh, made, ?_⟩
    intro c placed ran skipped shown
    -- the records in front of those of the run are no warnings, so without a trace they are not shown
    have warned : ran.console.log.events.toList.filter (·.level = .warn) = Event.ofSkips skipped :=
      placed.machine.warnings_run
    have kept : all.2.log.events.toList.filter ((Filter.choose i.trace none).Admits ·) = shown := by
      rw [Filter.filter_choose, events]
      exact congrArg (ite (i.trace = true) _) warned
    have warnings : shown.filter (·.level = .warn) = Event.ofSkips skipped := by
      show List.filter _ (if i.trace then _ else _) = _
      split
      · exact warned
      · exact Event.filter_ofSkips skipped
    rw [ended] at code errors
    rw [kept] at errors
    refine ⟨loaded, ?_, ?_, fun summary ok => ?_, fun fault error => ?_⟩
    · rw [output, sink]
      exact Sink.toUTF8_text (placed.machine.output_ascii _)
    · rw [warnings, Event.records_ofSkips]
    · rw [show (placed.machine.run c).result = _ from ok] at code errors
      refine ⟨code, errors.trans (String.append_empty), ?_⟩
      rw [Machine.result_run_ok ok]
      rfl
    · rw [show (placed.machine.run c).result = _ from error] at code errors
      exact ⟨code, errors⟩

/-- A file with a byte that is no opcode, a print and a print of no register, in a memory of 512 cells; and
a file that is not text, though only in a comment. -/
theorem Report.ofCall_run_in_part :
    let source := "11111111 # no opcode\n01000111\n00000000\n01000111\n11111111\n"
    let read (path : String) : FileContent :=
      if path = "print" then .ok source.toUTF8 else .ok ⟨#[0x23, 0xFF]⟩
    let arguments := ["--memory-size=" ++ "512", "--", "print"]
    Invocation.ofArguments arguments = .ok ⟨"print", 512, false⟩ ∧
      (Report.ofCall arguments none read).exitCode = 1 ∧
      (Report.ofCall arguments none read).output.toUTF8 = ⟨#[0x30, 0x0A]⟩ ∧
      (Report.ofCall arguments none read).errors =
        "[WARN  ls8::computer] unknown opcode 255 (0xff) at address 0x00\n" ++
          "Error: running print\n\nCaused by:\n    register index 255 out of bounds" ∧
      (Report.ofCall ["--trace", "comment"] none read).exitCode = 1 ∧
      (Report.ofCall ["--trace", "comment"] none read).output = "" := by
  intro source read arguments
  obtain ⟨sized, reports⟩ := ofCall_run
  have asked : Invocation.ofArguments arguments = .ok ⟨"print", 512, false⟩ :=
    sized "512" "print" 512 (by decide) (by decide) false
  obtain ⟨-, -, taken⟩ := reports _ _ read asked
  let image : Image := [0xFF, 0x47, 0, 0x47, 0xFF]
  have parsed : Image.parse source = .ok image := by decide +kernel
  obtain ⟨fresh, made, -, output, -, -, failing⟩ := taken image (.intro parsed (by decide))
  cases made
  have fits : image.length ≤ 512 := by decide
  rw [show Machine.load _ image _ = _ from Machine.load_zeros fits _] at output failing
  let c : Console := ⟨.unlimited, .empty (.upTo .trace)⟩
  let m : Machine := .ofMemory (.padded image 512)
  have printed : (m.run c).console.sink.accepted = #[0x30, 0x0A] := by decide +kernel
  have failed : (m.run c).result = .error (.registerOutOfBounds 0xFF) := by decide +kernel
  have warned : (m.run c).console.log.events.toList.filter (·.level = .warn) = [.skipped 0 0xFF] := by
    decide +kernel
  have skipped : Event.ofSkips ((m.completed c).filterMap Step.skipped?) = [.skipped 0 0xFF] :=
    m.warnings_run.symm.trans warned
  obtain ⟨code, errors⟩ := failing _ failed
  have refuses : Invocation.Refuses ⟨"comment", 256, true⟩ (read "comment") :=
    .notText (by decide +kernel)
  obtain ⟨-, refused, -⟩ := reports ["--trace", "comment"] ⟨"comment", 256, true⟩ read (by decide)
  obtain ⟨code', output', -⟩ := refused refuses
  refine ⟨asked, code, output.trans (congrArg ByteArray.mk printed), errors.trans ?_, code', output'⟩
  rw [if_neg Bool.false_ne_true, skipped]
  decide +kernel

end LS8
