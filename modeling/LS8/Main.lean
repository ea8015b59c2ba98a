import LS8.CommandLine.Report

/-! The program that is called: it reads the arguments and the file they name, and shows the report.
All that the report says is decided elsewhere. -/

namespace LS8

/-- The number of a failure of the operating system, which may arrive negated in 32 bits. -/
def failureNumber (code : UInt32) : Nat := min code.toNat (-code).toNat

def ReadFault.ofSystem : IO.Error → ReadFault
  | .noFileOrDirectory _ _ _ => .notFound
  | .inappropriateType _ code details =>
    match failureNumber code with
    | 20 => .notDirectory
    | 21 => .isDirectory
    | number => .system details number
  | .permissionDenied _ code details | .resourceExhausted _ code details
  | .invalidArgument _ code details | .noSuchThing _ code details
  | .otherError code details => .system details (failureNumber code)
  | failure => .system failure.toString 5

def readContent (path : String) : IO FileContent := do
  try
    return .ok (← IO.FS.readBinFile path)
  catch failure =>
    return .error (.ofSystem failure)

def Report.write (report : Report) : IO UInt32 := do
  let stdout ← IO.getStdout
  stdout.putStr report.output
  stdout.flush
  let stderr ← IO.getStderr
  -- A log ends its own lines, an error text does not.
  if report.exitCode = 0 then stderr.putStr report.errors else stderr.putStrLn report.errors
  return report.exitCode.toUInt32

end LS8

def main (arguments : List String) : IO UInt32 := do
  match LS8.Invocation.ofArguments arguments with
  | .error stop => stop.report.write
  | .ok invocation =>
    let content ← LS8.readContent invocation.program
    (invocation.report content (← IO.getEnv "RUST_LOG")).write
