import StyleBundle.Failure
import StyleBundle.Text.LineBreak

/-!
# Reading text

Text files are read as strict UTF-8, with every line break as a line feed. A byte order mark is
kept as a character.
-/

namespace StyleBundle.Disk

/-- The text that the bytes of a file write. -/
def textOf (bytes : List UInt8) : Except Failure String :=
  match Text.Utf8.decode bytes with
  | .ok s => .ok (String.ofList (Text.unifyLineBreaks s))
  | .error fault => .error (.undecodable fault)

variable [Limits]

/-- The text of the file that a path leads to. -/
def readText (d : Disk) (path : String) : Except Failure String :=
  match d.readBytes path with
  | .ok bytes => textOf bytes
  | .error fault => .error (.disk fault)

end StyleBundle.Disk
