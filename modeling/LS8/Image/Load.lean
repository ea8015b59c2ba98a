import LS8.Console.Log
import LS8.Files.Content
import LS8.Image.Parser

/-! Program images in files. That a file was read and parsed is noted in the log; that it was not is
for the caller to report. -/

namespace LS8

inductive ImageFault where
  | unreadable (path : String) (reason : ReadFault)
  | notAByte (literal : Literal)
deriving DecidableEq, Repr

def ImageFault.message : ImageFault → String
  | .unreadable path reason => s!"could not read {path}: {reason.message}"
  | .notAByte ⟨line, text⟩ =>
    s!"line {decimal line}: `{String.ofList text}` is not an 8-bit binary literal"

/-- The image in the file at `path`. The path serves to name the file. -/
def Image.ofFile (path : String) (content : FileContent) : Except ImageFault Image :=
  match content.text with
  | .error reason => .error (.unreadable path reason)
  | .ok source => (Image.parse source).mapError .notAByte

def Image.load (path : String) (content : FileContent) (log : Log) :
    Except ImageFault Image × Log :=
  match Image.ofFile path content with
  | .error fault => (.error fault, log)
  | .ok image => (.ok image, log.note (.parsed image.length path))

end LS8
