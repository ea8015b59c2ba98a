import LS8.CommandLine.Arguments
import LS8.CommandLine.Directive
import LS8.Image.Load
import LS8.Machine.Run

/-! What a call of the command line shows: an exit code and two texts. -/

namespace LS8

structure Report where
  exitCode : UInt8
  output : String
  errors : String
deriving DecidableEq, Repr

structure Failure where
  message : String
  cause? : Option String
deriving DecidableEq, Repr

def Failure.text (f : Failure) : String :=
  match f.cause? with
  | none => s!"Error: {f.message}"
  | some cause => s!"Error: {f.message}\n\nCaused by:\n    {cause}"

/-- An image that is not read stands for itself; only the operating system's reason is a cause. -/
def Failure.ofImageFault (fault : ImageFault) : Failure :=
  match fault with
  | .unreadable _ reason => ⟨fault.message, some reason.message⟩
  | .notAByte _ => ⟨fault.message, none⟩

/-- A record of the log as a line of plain text. Further lines of its text are indented. -/
def Event.record (event : Event) : String :=
  let level := String.ofList (event.level.name.toList.rightpad 5 ' ')
  let text := event.text.toList.flatMap fun c => if c = '\n' then "\n    ".toList else [c]
  plainText s!"[{level} {event.target}] {String.ofList text}\n"

def Log.text (l : Log) : String := String.join (l.events.toList.map Event.record)

def Invocation.runImage (i : Invocation) (image : Image) (log : Log) :
    Except Failure Unit × Console :=
  let console : Console := ⟨.unlimited, log⟩
  match Machine.ofSize i.memorySize with
  | .error fault => (.error ⟨fault.message, none⟩, console)
  | .ok machine =>
    let placed := machine.load image console
    match placed.result with
    | .error fault => (.error ⟨s!"loading {i.program}", some fault.message⟩, placed.console)
    | .ok () =>
      let ran := placed.machine.run placed.console
      match ran.result with
      | .error fault => (.error ⟨s!"running {i.program}", some fault.message⟩, ran.console)
      | .ok _ => (.ok (), ran.console)

/-- Carries out a call, given what the program's file holds. The file is looked at first: a memory
is made only for an image that was read. -/
def Invocation.execute (i : Invocation) (content : FileContent) (filter : Filter) :
    Except Failure Unit × Console :=
  match Image.load i.program content (.empty filter) with
  | (.error fault, log) => (.error (.ofImageFault fault), ⟨.unlimited, log⟩)
  | (.ok image, log) => i.runImage image log

/-- The report of a call that was carried out. What was printed is shown also after a failure. -/
def Report.ofOutcome : Except Failure Unit × Console → Report
  | (.ok (), console) => ⟨0, console.sink.text, console.log.text⟩
  | (.error failure, console) => ⟨1, console.sink.text, console.log.text ++ failure.text⟩

def Invocation.report (i : Invocation) (content : FileContent) (directive? : Option String) :
    Report :=
  .ofOutcome (i.execute content (.choose i.trace directive?))

/-- The report on arguments that call for no run. Of a complaint only its first line is shown. -/
def Stop.report : Stop → Report
  | .help => ⟨0, helpText, ""⟩
  | .misuse fault =>
    ⟨2, "", String.ofList (s!"error: {fault.message}".toList.takeWhile (· ≠ '\n'))⟩

/-- The report on a whole call, where `read` gives the content of a file. -/
def Report.ofCall (arguments : List String) (directive? : Option String)
    (read : String → FileContent) : Report :=
  match Invocation.ofArguments arguments with
  | .error stop => stop.report
  | .ok invocation => invocation.report (read invocation.program) directive?

end LS8
