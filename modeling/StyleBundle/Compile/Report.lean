import StyleBundle.Failure
import StyleBundle.Text.Blank
import StyleBundle.Text.Digit

/-!
# Compile reports

A compile ends with compiled text or with a diagnosis. The engine words its diagnoses for people;
the message is the first line, and the place stands somewhere behind the words `on line`.
-/

namespace StyleBundle

/-- The name of the text that a request holds itself. -/
def inlineSource : String := "stdin"

/-- Compiled text. -/
structure Output where
  /-- The compiled text. -/
  css : String
  /-- Its source map. -/
  map : Option String
  deriving DecidableEq, Repr

/-- Why a text does not compile. -/
structure Diagnosis where
  /-- What is wrong, without the place. -/
  message : String
  /-- The file in which it is wrong. -/
  file : String
  /-- The line, or zero if it is not known. -/
  line : Int
  /-- The column, or zero if it is not known. -/
  column : Int
  deriving DecidableEq, Repr

/-- What a compiler reports when it is done. -/
structure Report where
  /-- Why the text does not compile. -/
  diagnosis : Option Diagnosis
  /-- The compiled text. -/
  output : Option Output
  deriving DecidableEq, Repr

namespace Diagnosis

/-- A diagnosis without a place. -/
def placeless (message : String) : Diagnosis := ⟨message, inlineSource, 0, 0⟩

/-- The digits at the front, of which there is one at least, and what follows. -/
def digits? (s : List Char) : Option (List Char × List Char) :=
  let digits := s.takeWhile Text.isDigit
  if digits.isEmpty then none else some (digits, s.dropWhile Text.isDigit)

/-- A place in a message. -/
structure Locator where
  /-- The digits of the line. -/
  line : List Char
  /-- The digits of the column. -/
  column : List Char
  /-- The file. -/
  file : List Char

/-- The place at the front of a text. -/
def locator? (s : List Char) : Option Locator := do
  let s ← Text.dropFront? "on line ".toList s
  let (line, s) ← digits? s
  let s ← Text.dropFront? ":".toList s
  let (column, s) ← digits? s
  let s ← Text.dropFront? " of ".toList s
  let file := s.takeWhile (!Text.isBlank ·)
  if file.isEmpty then none else some ⟨line, column, file⟩

/-- The first place in a text. -/
def findLocator? : List Char → Option Locator
  | [] => none
  | c :: rest =>
    match locator? (c :: rest) with
    | some found => some found
    | none => findLocator? rest

/-- The number that digits write. -/
def number (digits : List Char) : Except Failure Nat :=
  if Json.maxDigits < digits.length then .error (.longNumber digits.length)
  else .ok (Text.digitsValue digits)

/-- What is wrong: the first line that is not blank, without the word that opens it. -/
def messageOf (text : List Char) : List Char :=
  let line := Text.firstLine (Text.trim text)
  Text.trim ((Text.dropFront? "Error: ".toList line).getD line)

/-- The diagnosis that an engine's message makes. -/
def ofMessage (text : String) : Except Failure Diagnosis :=
  let message := String.ofList (messageOf text.toList)
  match findLocator? text.toList with
  | none => .ok (placeless message)
  | some locator =>
    match number locator.line, number locator.column with
    | .error failure, _ | _, .error failure => .error failure
    | .ok line, .ok column => .ok ⟨message, String.ofList locator.file, line, column⟩

end Diagnosis

end StyleBundle
