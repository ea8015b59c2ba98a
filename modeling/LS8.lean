import LS8.Operation
import LS8.Numeral
import LS8.Fault
import LS8.InPlace
import LS8.Registers
import LS8.Arithmetic
import LS8.Memory
import LS8.Instruction
import LS8.Snapshot
import LS8.Console.Sink
import LS8.Console.Event
import LS8.Console.Log
import LS8.Console.Basic
import LS8.Machine.Basic
import LS8.Machine.Step
import LS8.Machine.Cycle
import LS8.Machine.Run
import LS8.Files.Content
import LS8.Files.Folder
import LS8.Image.Blank
import LS8.Image.Parser
import LS8.Image.Load
import LS8.CommandLine.MemorySize
import LS8.CommandLine.PlainText
import LS8.CommandLine.Usage
import LS8.CommandLine.Arguments
import LS8.CommandLine.Directive
import LS8.CommandLine.Report
import LS8.Main
import LS8.Proofs.RegisterFile
import LS8.Proofs.Sweep
import LS8.Proofs.Execution
import LS8.Proofs.Running
import LS8.Proofs.SweepRun
import LS8.Proofs.RunLog
import LS8.Proofs.Padding
import LS8.Proofs.BoundedOutput
import LS8.Proofs.Resumption
import LS8.Proofs.Commands
import LS8.Proofs.MemoryMap
import LS8.Proofs.Lifetime
import LS8.Proofs.Invariants
import LS8.Proofs.StepFailure
import LS8.Proofs.StepByStep
import LS8.Proofs.ExactArithmetic
import LS8.Proofs.RaisedFaults
import LS8.Proofs.Numerals
import LS8.Proofs.WrittenNumerals
import LS8.Proofs.PrintedLines
import LS8.Proofs.MemorySizes
import LS8.Proofs.ImageGrammar
import LS8.Proofs.Literals
import LS8.Proofs.ImageChunks
import LS8.Proofs.ImageFaults
import LS8.Proofs.ImageEdits
import LS8.Proofs.DataIndependence
import LS8.Proofs.Relocation
import LS8.Proofs.Insertion
import LS8.Proofs.RegisterRenaming
import LS8.Proofs.Finality
import LS8.Proofs.RunRecords
import LS8.Proofs.LogViews
import LS8.Proofs.Invocations
import LS8.Proofs.PlainRecords
import LS8.Proofs.CallReports
import LS8.Proofs.LogNeutrality
import LS8.Proofs.PrintedValues
import LS8.Proofs.TraceLines
import LS8.Proofs.IndependentCalls
import LS8.Proofs.RegisterCalls
