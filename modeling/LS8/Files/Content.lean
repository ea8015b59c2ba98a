import LS8.Numeral

/-! What files give when they are read: their bytes, or the reason why there are none. Text in a file
has to be UTF-8 throughout. -/

namespace LS8

inductive ReadFault where
  | notFound
  | isDirectory
  | notDirectory
  | notText
  /-- Any other failure, in the words and with the number of the operating system. -/
  | system (description : String) (code : Nat)
deriving DecidableEq, Repr

def ReadFault.message : ReadFault → String
  | .notFound => "No such file or directory (os error 2)"
  | .isDirectory => "Is a directory (os error 21)"
  | .notDirectory => "Not a directory (os error 20)"
  | .notText => "stream did not contain valid UTF-8"
  | .system description code => s!"{description} (os error {decimal code})"

abbrev FileContent := Except ReadFault ByteArray

def FileContent.text (content : FileContent) : Except ReadFault String := do
  match String.fromUTF8? (← content) with
  | some text => return text
  | none => throw .notText

end LS8
