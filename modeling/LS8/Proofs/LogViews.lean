import LS8.CommandLine.Report
import LS8.Proofs.RunLog
import LS8.Proofs.StepByStep

/-! Logs of the same events under different filters. The log of everything, seen through a filter, is the
log that this filter leaves; and apart from it a filter makes no difference to any operation. -/

namespace LS8

/-- What a filter would have left of the events in the log. -/
def Log.under (l : Log) (f : Filter) : Log := ⟨f, l.events.filter (f.Admits ·)⟩

def Console.under (c : Console) (f : Filter) : Console := { c with log := c.log.under f }

def Turn.under {α : Type} (t : Turn α) (f : Filter) : Turn α :=
  { t with console := t.console.under f }

theorem Log.under_note {l : Log} (full : l.Full) (f : Filter) (event : Event) :
    (l.note event).under f = (l.under f).note event := by
  have all : l.filter.Admits event := by
    rw [full]
    exact event.admitted_by_trace
  by_cases h : f.Admits event <;> simp [under, Log.note, all, h]

theorem Log.under_foldl_note {l : Log} (full : l.Full) (f : Filter) (events : List Event) :
    (events.foldl note l).under f = events.foldl note (l.under f) := by
  induction events generalizing l with
  | nil => rfl
  | cons event events ih => rw [List.foldl_cons, ih (full.note event), under_note full, List.foldl_cons]

theorem Log.empty_under (f g : Filter) : (Log.empty g).under f = .empty f := by
  simp [under, empty]

section Console

variable {c : Console} (full : c.log.Full) (f : Filter)

include full

theorem Console.full_follow (h : History) : (c.follow h).log.Full := by
  rw [log_follow]
  exact (Log.foldl_note _ _).1.trans full

theorem Console.note_under (event : Event) : (c.under f).note event = (c.note event).under f := by
  simp only [note, under, Log.under_note full]

theorem Console.follow_under (h : History) : (c.under f).follow h = (c.follow h).under f := by
  have hs : ((c.under f).follow h).sink = ((c.follow h).under f).sink := by
    show _ = (c.follow h).sink
    rw [sink_follow, sink_follow]
    rfl
  have hl : ((c.under f).follow h).log = ((c.follow h).under f).log := by
    show _ = (c.follow h).log.under f
    rw [log_follow, log_follow, Log.under_foldl_note full]
    rfl
  exact congr (congrArg Console.mk hs) hl

end Console

section Machine

variable {c : Console} (m : Machine) (full : c.log.Full) (f : Filter)

include full

theorem Machine.step_under :
    (m.step c).console.log.Full ∧ m.step (c.under f) = (m.step c).under f := by
  have hs := m.stepped c
  generalize m.step c = turn at hs
  cases hs with
  | idle halted =>
    rw [step_of_halted halted]
    exact ⟨full, rfl⟩
  | failed running error =>
    refine ⟨full.note _, ?_⟩
    rw [step_of_error running error, Console.note_under full]
    rfl
  | @refused effect _ running ok fits =>
    refine ⟨Console.full_follow full _, ?_⟩
    rw [step_of_refused running ok (show ¬ (c.under f).sink.Fits effect.output from fits),
      Console.follow_under full]
    rfl
  | @done effect _ running ok fits =>
    refine ⟨Console.full_follow full _, ?_⟩
    rw [step_of_fits running ok (show (c.under f).sink.Fits effect.output from fits),
      Console.follow_under full]
    rfl

theorem Machine.runFrom_under (s : Summary) :
    (m.runFrom c s).console.log.Full ∧ m.runFrom (c.under f) s = (m.runFrom c s).under f := by
  induction m, c, s using Machine.runFrom.induct with
  | case1 m c s halted =>
    rw [runFrom_of_halted halted, runFrom_of_halted halted]
    exact ⟨full, rfl⟩
  | case2 m c s running fault next shown h =>
    obtain ⟨hf, hu⟩ := m.step_under full f
    rw [h] at hf hu
    rw [runFrom_of_step_error running h, runFrom_of_step_error running hu]
    exact ⟨hf, rfl⟩
  | case3 m c s running step next shown h _ ih =>
    obtain ⟨hf, hu⟩ := m.step_under full f
    rw [h] at hf hu
    rw [runFrom_of_step_ok running h, runFrom_of_step_ok running hu]
    exact ih hf

theorem Machine.load_under (image : Image) :
    (m.load image c).console.log.Full ∧ m.load image (c.under f) = (m.load image c).under f := by
  rw [load, load]
  split
  · refine ⟨full.note _, ?_⟩
    rw [Console.note_under full]
    rfl
  · exact ⟨full, rfl⟩

end Machine

theorem Image.load_under {l : Log} (full : l.Full) (f : Filter) (path : String)
    (content : FileContent) :
    (Image.load path content l).2.Full ∧
      Image.load path content (l.under f) =
        ((Image.load path content l).1, (Image.load path content l).2.under f) := by
  rw [load, load]
  split
  · exact ⟨full, rfl⟩
  · refine ⟨full.note _, ?_⟩
    rw [Log.under_note full]

/-- What a call makes of the result of its run. -/
def Invocation.ended (i : Invocation) : Except Fault Summary → Except Failure Unit
  | .ok _ => .ok ()
  | .error fault => .error ⟨s!"running {i.program}", some fault.message⟩

section Call

variable {i : Invocation} {m placed : Machine} {image : Image} {l : Log} {c : Console}

theorem Invocation.runImage_of_load_error {fault : Fault}
    (made : Machine.ofSize i.memorySize = .ok m)
    (h : m.load image ⟨.unlimited, l⟩ = ⟨.error fault, placed, c⟩) :
    i.runImage image l = (.error ⟨s!"loading {i.program}", some fault.message⟩, c) := by
  simp only [runImage, made, h]

theorem Invocation.runImage_of_load_ok (made : Machine.ofSize i.memorySize = .ok m)
    (h : m.load image ⟨.unlimited, l⟩ = ⟨.ok (), placed, c⟩) :
    i.runImage image l = (i.ended (placed.run c).result, (placed.run c).console) := by
  simp only [runImage, made, h]
  generalize placed.run c = ran
  obtain ⟨_ | _, _, _⟩ := ran <;> rfl

theorem Invocation.runImage_under (full : l.Full) (f : Filter) :
    i.runImage image (l.under f) = ((i.runImage image l).1, (i.runImage image l).2.under f) := by
  cases made : Machine.ofSize i.memorySize with
  | error fault =>
    simp only [runImage, made]
    rfl
  | ok m =>
    obtain ⟨hf, hu⟩ := m.load_under (c := ⟨.unlimited, l⟩) full f image
    cases h : m.load image ⟨.unlimited, l⟩ with
    | mk result placed c =>
      rw [h] at hf hu
      cases result with
      | error fault => rw [runImage_of_load_error made h, runImage_of_load_error made hu]
      | ok =>
        have hr := (placed.runFrom_under hf f .empty).2
        rw [runImage_of_load_ok made h, runImage_of_load_ok made hu, Machine.run, hr]
        rfl

/-- A call does the same under each filter, and under a filter it logs what that filter leaves. -/
theorem Invocation.execute_under (i : Invocation) (content : FileContent) (f : Filter) :
    i.execute content f =
      ((i.execute content (.upTo .trace)).1, (i.execute content (.upTo .trace)).2.under f) := by
  obtain ⟨hf, hu⟩ := Image.load_under Log.full_empty f i.program content
  rw [Log.empty_under] at hu
  rw [execute, execute, hu]
  generalize Image.load i.program content (.empty (.upTo .trace)) = loaded at hf
  obtain ⟨_ | image, l⟩ := loaded
  · rfl
  · exact runImage_under hf f

end Call

def Failure.exitCode : Except Failure Unit → UInt8
  | .ok () => 0
  | .error _ => 1

/-- What a report ends in: the account of the failure, if there was one. -/
def Failure.account : Except Failure Unit → String
  | .ok () => ""
  | .error failure => failure.text

/-- The log that a call keeps is the part of the log of everything that its filter admits. -/
theorem Report.ofCall_eq {arguments : List String} {i : Invocation}
    (asked : Invocation.ofArguments arguments = .ok i) (directive? : Option String)
    (read : String → FileContent) :
    let all := i.execute (read i.program) (.upTo .trace)
    let shown := all.2.log.events.toList.filter ((Filter.choose i.trace directive?).Admits ·)
    Report.ofCall arguments directive? read =
      ⟨Failure.exitCode all.1, all.2.sink.text,
        String.join (shown.map Event.record) ++ Failure.account all.1⟩ := by
  intro all shown
  have kept : (all.2.under (.choose i.trace directive?)).log.text =
      String.join (shown.map Event.record) := by
    show String.join ((Array.filter _ _).toList.map Event.record) = _
    rw [Array.toList_filter]
  have called : Report.ofCall arguments directive? read =
      .ofOutcome (all.1, all.2.under (.choose i.trace directive?)) := by
    rw [ofCall, asked]
    exact congrArg Report.ofOutcome (i.execute_under _ _)
  rw [called, ← kept]
  cases all.1 with
  | ok => exact congrArg _ (String.append_empty).symm
  | error => rfl

/-- A machine that is being worked with, and the console in use. -/
structure Session where
  machine : Machine
  console : Console

inductive Request where
  | read (path : String) (content : FileContent)
  | load (image : Image)
  | poke (address : Nat) (value : UInt8)
  | step
  | run
  /-- From now on output goes to this sink. -/
  | attach (sink : Sink)

inductive Answer where
  | read (result : Except ImageFault Image)
  | done (result : Except Fault Unit)
  | stepped (result : Except Fault Step)
  | ran (result : Except Fault Summary)

def Session.after {α : Type} (t : Turn α) : Session := ⟨t.machine, t.console⟩

def Session.answer (s : Session) : Request → Answer × Session
  | .read path content =>
    let (result, log) := Image.load path content s.console.log
    (.read result, ⟨s.machine, { s.console with log }⟩)
  | .load image =>
    let turn := s.machine.load image s.console
    (.done turn.result, .after turn)
  | .poke address value =>
    let (result, machine) := s.machine.poke address value
    (.done result, { s with machine })
  | .step =>
    let turn := s.machine.step s.console
    (.stepped turn.result, .after turn)
  | .run =>
    let turn := s.machine.run s.console
    (.ran turn.result, .after turn)
  | .attach sink => (.done (.ok ()), ⟨s.machine, { s.console with sink }⟩)

/-- The answers to requests made one after the other, each with the session as it is then. -/
def Session.transcript (s : Session) : List Request → List (Answer × Session)
  | [] => []
  | request :: requests => s.answer request :: (s.answer request).2.transcript requests

def Session.under (s : Session) (f : Filter) : Session := { s with console := s.console.under f }

theorem Session.answer_under {s : Session} (full : s.console.log.Full) (f : Filter)
    (request : Request) :
    (s.answer request).2.console.log.Full ∧
      (s.under f).answer request = ((s.answer request).1, (s.answer request).2.under f) := by
  cases request with
  | read path content =>
    obtain ⟨hf, hu⟩ := Image.load_under full f path content
    refine ⟨hf, ?_⟩
    simp only [answer, under, Console.under, hu]
  | load image =>
    obtain ⟨hf, hu⟩ := s.machine.load_under full f image
    refine ⟨hf, ?_⟩
    simp only [answer, under, hu]
    rfl
  | poke address value => exact ⟨full, rfl⟩
  | step =>
    obtain ⟨hf, hu⟩ := s.machine.step_under full f
    refine ⟨hf, ?_⟩
    simp only [answer, under, hu]
    rfl
  | run =>
    obtain ⟨hf, hu⟩ := s.machine.runFrom_under full f .empty
    refine ⟨hf, ?_⟩
    simp only [answer, under, Machine.run, hu]
    rfl
  | attach sink => exact ⟨full, rfl⟩

theorem Session.transcript_under {s : Session} (full : s.console.log.Full) (f : Filter)
    (requests : List Request) :
    (s.under f).transcript requests =
      (s.transcript requests).map fun reply => (reply.1, reply.2.under f) := by
  induction requests generalizing s with
  | nil => rfl
  | cons request requests ih =>
    obtain ⟨hf, hu⟩ := answer_under full f request
    rw [transcript, hu, ih hf]
    rfl

end LS8
