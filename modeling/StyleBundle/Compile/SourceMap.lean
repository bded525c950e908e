import StyleBundle.Compile.Report
import StyleBundle.Json.Printer

/-!
# Source maps

The engine puts its source map behind the compiled text, in a comment that holds it as base 64.
It is taken off, and the name under which the engine knows the inline text is replaced by the name
of its file. Texts in a map may hold halves of surrogate pairs, which are written as they were read.
-/

namespace StyleBundle.SourceMap

/-- What opens the comment. -/
def opening : List Char := "/*# sourceMappingURL=data:application/json;".toList

/-- The encoding that may be given. -/
def charset : List Char := "charset=utf-8;".toList

/-- What stands before the data. -/
def marker : List Char := "base64,".toList

/-- What closes the comment. -/
def closing : List Char := " */".toList

/-- Whether a character may stand in the data. -/
def isData (c : Char) : Bool := (Text.Base64.value? c).isSome || c = '='

/-- The data of a comment at the front with nothing but blanks behind it. -/
def comment? (s : List Char) : Option (List Char) := do
  let s ← Text.dropFront? opening s
  let s ← Text.dropFront? marker ((Text.dropFront? charset s).getD s)
  let data := s.takeWhile isData
  let rest ← Text.dropFront? closing (s.dropWhile isData)
  if !data.isEmpty && rest.all Text.isBlank then some data else none

/-- The text before the first such comment, and the comment's data. -/
def find? : List Char → Option (List Char × List Char)
  | [] => none
  | c :: rest =>
    match comment? (c :: rest) with
    | some data => some ([], data)
    | none => (find? rest).map fun (before, data) => (c :: before, data)

/-- The map that the data of a comment holds. -/
def decode (data : List Char) : Except Failure String :=
  match Text.Base64.decode data with
  | .error fault => .error (.base64 fault)
  | .ok bytes =>
    match Text.Utf8.decode bytes with
    | .error fault => .error (.undecodable fault)
    | .ok s => .ok (String.ofList s)

/-- The compiled text with its map taken off. What is left loses its trailing blanks and ends with
one line feed; a text without a map stays as it is. -/
def takeOff (css : String) : Except Failure Output :=
  match find? css.toList with
  | none => .ok ⟨css, none⟩
  | some (before, data) =>
    match decode data with
    | .error failure => .error failure
    | .ok map => .ok ⟨String.ofList (Text.trimEnd before ++ ['\n']), some map⟩

/-- A source map as JSON. -/
abbrev Value := Json (List Json.Sign)

/-- A text without halves of surrogate pairs as a value. -/
def textValue (s : String) : Value := .str (Json.signsOf s)

/-- The word for the kind of a value. -/
def kindName : Value → String
  | .null => "NoneType"
  | .bool _ => "bool"
  | .int _ => "int"
  | .float _ => "float"
  | .str _ => "str"
  | .arr _ => "list"
  | .obj _ => "dict"

/-- The name of the member for the output. -/
def fileKey : List Json.Sign := Json.signsOf "file"

/-- The name of the member for the sources. -/
def sourcesKey : List Json.Sign := Json.signsOf "sources"

/-- The map with the name of its output set. -/
def setFile (name : String) : Value → Except Failure Value
  | .obj members => .ok (.obj (Table.put fileKey (textValue name) members))
  | .arr _ => .error (.map .list)
  | v => .error (.map (.fixed (kindName v)))

/-- The sources as a row of values: a list's items, a text's signs, an object's names. -/
def sourceItems : Value → Except Failure (List Value)
  | .arr items => .ok items
  | .str signs => .ok (signs.map fun sign => .str [sign])
  | .obj members => .ok (members.map fun (name, _) => .str name)
  | v => .error (.map (.itemless (kindName v)))

/-- A source with the inline text's name replaced. -/
def relabelSource (file : String) : Value → Value
  | .str s => if s = Json.signsOf inlineSource then textValue file else .str s
  | v => v

/-- The map with its inline source named. A map without sources gets an empty list of them. -/
def labelSources (file : String) : Value → Except Failure Value
  | .obj members =>
    (sourceItems ((Table.get? sourcesKey members).getD (.arr []))).map fun items =>
      .obj (Table.put sourcesKey (.arr (items.map (relabelSource file))) members)
  | v => .error (.map (.memberless (kindName v)))

/-- The map with its output named, if there is a name, and its inline source named. -/
def relabelValue (outFile : Option String) (file : String) (map : Value) : Except Failure Value :=
  (if outFile.getD "" = "" then .ok map else setFile (outFile.getD "") map).bind
    (labelSources file)

/-- The failure that a fault in the text of a map is. -/
def failureOf (map : String) : Json.Fault → Failure
  | ⟨.longInteger digits, _⟩ => .longNumber digits
  | ⟨.nesting word, _⟩ => .raised (Json.Fault.Kind.nesting word).message
  | fault => .json fault map

/-- The wording for a map that is nested too deep to be written. -/
def unwritableMessage : String := Json.nestingMessage "encoding a JSON object"

/-- The text of a map, if there is room for its levels. -/
def printWithin (room : Option Nat) (map : Value) : Except Failure String :=
  if Within room map.depth then .ok (map.print .spaced) else .error (.raised unwritableMessage)

/-- The text of a map with its output and its inline source named, with room for so many levels. -/
def relabelWithin (room : Json.Room) (outFile : Option String) (file map : String) :
    Except Failure String :=
  match Json.readWithin room.reading map with
  | .error fault => .error (failureOf map fault)
  | .ok value => (relabelValue outFile file value).bind (printWithin room.writing)

end StyleBundle.SourceMap
