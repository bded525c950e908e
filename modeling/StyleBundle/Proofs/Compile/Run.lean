import StyleBundle.Compile.Engine
import StyleBundle.Proofs.Compile.Embedding
import StyleBundle.Proofs.Compile.Label
import StyleBundle.Proofs.Compile.Place

/-!
# What a callback is told of a compile

Whatever an engine answers, the callback that waits for the compile is called once, with a diagnosis
or with compiled text. Only a message with a place that cannot be converted keeps it from being
called. A callback that fails is not called again.
-/

namespace StyleBundle

/-! ## What a message comes to -/

namespace Diagnosis

/-- The diagnosis that a message makes: its first line, and the first place in it if there is
one. -/
inductive Reads (text : String) : Diagnosis → Prop
  /-- The first place in the message counts. -/
  | placed {found : Locator} (first : found.IsFirst text.toList) :
    Reads text ⟨String.ofList (messageOf text.toList), String.ofList found.file,
      Text.digitsValue found.line, Text.digitsValue found.column⟩
  /-- There is no place in the message. -/
  | unplaced (missing : ¬ HasPlace text.toList) :
    Reads text ⟨String.ofList (messageOf text.toList), inlineSource, 0, 0⟩

end Diagnosis

/-! ## What can go wrong with a map -/

namespace SourceMap

/-- The text that the data of a comment hold: the data are the base 64 of its UTF-8. -/
structure Holds (data : List Char) (map : String) : Prop where
  /-- The bytes of the data are those of the text. -/
  bytes_eq : ∃ bytes, Text.Base64.decode data = .ok bytes ∧
    Text.Utf8.decode bytes = .ok map.toList

/-- Why the data of a comment make no map of the request. -/
inductive Spoils (room : Json.Room) (r : Request) (data : List Char) : Failure → Prop
  /-- The data are no base 64. -/
  | garbled {fault : Text.Base64.Fault} (bytes_eq : Text.Base64.decode data = .error fault) :
    Spoils room r data (.base64 fault)
  /-- The bytes are no text. -/
  | undecodable {bytes : List UInt8} {fault : Text.Utf8.Fault}
    (bytes_eq : Text.Base64.decode data = .ok bytes)
    (text_eq : Text.Utf8.decode bytes = .error fault) : Spoils room r data (.undecodable fault)
  /-- The text is no JSON. -/
  | unreadable {map : String} {fault : Json.Fault} (holds : Holds data map)
    (value_eq : (Json.readWithin room.reading map : Except Json.Fault Value) = .error fault)
    (not_long : ∀ digits, fault.kind ≠ .longInteger digits)
    (not_deep : ∀ word, fault.kind ≠ .nesting word) : Spoils room r data (.json fault map)
  /-- The text has a number with too many digits. -/
  | longNumber {map : String} {digits left : ℕ} (holds : Holds data map)
    (value_eq : (Json.readWithin room.reading map : Except Json.Fault Value) =
      .error ⟨.longInteger digits, left⟩) : Spoils room r data (.longNumber digits)
  /-- The text is nested too deep to be read. -/
  | nested {map word : String} {left : ℕ} (holds : Holds data map)
    (value_eq : (Json.readWithin room.reading map : Except Json.Fault Value) =
      .error ⟨.nesting word, left⟩) :
    Spoils room r data
      (.raised (Json.nestingMessage s!"decoding a JSON {word} from a unicode string"))
  /-- The value is a list, in which no output can be named. -/
  | list {map : String} {items : List Value} (holds : Holds data map)
    (value_eq : Json.readWithin room.reading map = .ok (.arr items : Value))
    (named : r.outFile.getD "" ≠ "") : Spoils room r data (.map .list)
  /-- The value is neither a list nor an object, and no output can be named in it. -/
  | fixed {map : String} {value : Value} (holds : Holds data map)
    (value_eq : Json.readWithin room.reading map = .ok value)
    (not_arr : ∀ items, value ≠ .arr items) (not_obj : ∀ members, value ≠ .obj members)
    (named : r.outFile.getD "" ≠ "") : Spoils room r data (.map (.fixed (kindName value)))
  /-- The value is no object, so it has no sources. -/
  | memberless {map : String} {value : Value} (holds : Holds data map)
    (value_eq : Json.readWithin room.reading map = .ok value)
    (not_obj : ∀ members, value ≠ .obj members) (unnamed : r.outFile.getD "" = "") :
    Spoils room r data (.map (.memberless (kindName value)))
  /-- The sources of an object are no row of values. -/
  | rowless {map : String} {members : List (List Json.Sign × Value)} {value : Value}
    (holds : Holds data map)
    (value_eq : Json.readWithin room.reading map = .ok (.obj members : Value))
    (found : Table.get? sourcesKey members = some value) (not_row : ∀ row, ¬ IsRow value row) :
    Spoils room r data (.map (.itemless (kindName value)))
  /-- The map with its labels is nested too deep to be written. -/
  | unwritable {map : String} {members labelled : List (List Json.Sign × Value)}
    {sources : List Value} (holds : Holds data map)
    (value_eq : Json.readWithin room.reading map = .ok (.obj members : Value))
    (sources_eq : HasSources members sources) (labels : Labels r members sources labelled)
    (deep : ¬ Within room.writing (Json.depth (.obj labelled))) :
    Spoils room r data (.raised (Json.nestingMessage "encoding a JSON object"))

/-- The text of the map that the data of a comment make of the request. -/
inductive Makes (room : Json.Room) (r : Request) (data : List Char) : String → Prop
  /-- The text is an object, and its labels are those of the request. -/
  | labelled {map : String} {members labelled : List (List Json.Sign × Value)}
    {sources : List Value} (holds : Holds data map)
    (value_eq : Json.readWithin room.reading map = .ok (.obj members : Value))
    (sources_eq : HasSources members sources) (labels : Labels r members sources labelled)
    (fits : Within room.writing (Json.depth (.obj labelled))) :
    Makes room r data (Json.print .spaced (.obj labelled : Value))

variable {room : Json.Room} {r : Request} {data : List Char}

end SourceMap

namespace Engine

variable {done : Report → Except Failure Unit} {room : Json.Room} {r : Request}

/-! ## One report -/

/-- A run calls back once, with a diagnosis or with compiled text, or it fails before it does. -/
theorem run_cases (done : Report → Except Failure Unit) (compiled : Except Failure Output) :
    (∃ report records, run done compiled = .calling done report records ∧
      (report.diagnosis.isSome = true ∨ report.output.isSome = true)) ∨
    ∃ failure, run done compiled = ⟨[], [], .error failure⟩ := by
  unfold run
  split
  · exact .inl ⟨_, _, rfl, .inr rfl⟩
  · split
    · exact .inl ⟨_, _, rfl, .inl rfl⟩
    · exact .inr ⟨_, rfl⟩
  · exact .inl ⟨_, _, rfl, .inl rfl⟩

/-- What a callback may be told of an engine's answer to a request. -/
inductive Reports (room : Json.Room) (r : Request) : Except Failure String → Report → Prop
  /-- The stylesheet is refused, and the diagnosis is what the message makes. -/
  | refused {message : String} {diagnosis : Diagnosis} (reads : diagnosis.Reads message) :
    Reports room r (.error (.stylesheet message)) ⟨some diagnosis, none⟩
  /-- The engine fails in any other way. -/
  | failed {failure : Failure} (other : ∀ message, failure ≠ .stylesheet message) :
    Reports room r (.error failure) ⟨some ⟨failure.message, inlineSource, 0, 0⟩, none⟩
  /-- The compiled text ends in a comment that makes no map. -/
  | spoilt {css : String} {before data : List Char} {failure : Failure}
    (embeds : SourceMap.Embeds css.toList before data)
    (spoils : SourceMap.Spoils room r data failure) :
    Reports room r (.ok css) ⟨some ⟨failure.message, inlineSource, 0, 0⟩, none⟩
  /-- The compiled text does not end in a comment with a map. -/
  | bare {css : String} (missing : ∀ before data, ¬ SourceMap.Embeds css.toList before data) :
    Reports room r (.ok css) ⟨none, some ⟨css, none⟩⟩
  /-- The compiled text ends in a comment with a map. -/
  | mapped {css label : String} {before data : List Char}
    (embeds : SourceMap.Embeds css.toList before data)
    (makes : SourceMap.Makes room r data label) :
    Reports room r (.ok css)
      ⟨none, some ⟨String.ofList (Text.trimEnd before) ++ "\n", some label⟩⟩

/-- A report holds a diagnosis or compiled text, never both, and compiled text has a map exactly if
the engine's text ends in one. -/
theorem Reports.one {answer : Except Failure String} {report : Report}
    (h : Reports room r answer report) : (report.diagnosis.isSome = true ↔ report.output = none) ∧
      ∀ output, report.output = some output → ∃ css, answer = .ok css ∧
        (output.map = none ↔ ∀ before data, ¬ SourceMap.Embeds css.toList before data) := by
  cases h with
  | refused reads => exact ⟨iff_of_true rfl rfl, nofun⟩
  | failed other => exact ⟨iff_of_true rfl rfl, nofun⟩
  | spoilt embeds spoils => exact ⟨iff_of_true rfl rfl, nofun⟩
  | bare missing =>
    refine ⟨iff_of_false nofun nofun, fun output houtput => ?_⟩
    obtain rfl := Option.some.inj houtput
    exact ⟨_, rfl, iff_of_true rfl missing⟩
  | mapped embeds makes =>
    refine ⟨iff_of_false nofun nofun, fun output houtput => ?_⟩
    obtain rfl := Option.some.inj houtput
    exact ⟨_, rfl, iff_of_false nofun fun missing => missing _ _ embeds⟩

end Engine

end StyleBundle
