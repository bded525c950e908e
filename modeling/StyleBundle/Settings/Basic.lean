import StyleBundle.Settings.Coercion

/-!
# Settings

The user's settings of the transform. Each field has a name and may have a second one, with
hyphens, which settings files use. When both are given, the hyphened one counts and the other is
an extra key.
-/

namespace StyleBundle

/-- How imports are hooked. -/
inductive Importing
  /-- Not at all. -/
  | off
  /-- By the hook that expands macros. -/
  | macros
  /-- By a hook of the host. -/
  | custom (hook : Import.Hook)

/-- The compiler's output styles. -/
inductive OutputStyle
  /-- Rules are indented like the source. -/
  | nested
  /-- One declaration a line. -/
  | expanded
  /-- One rule a line. -/
  | compact
  /-- No needless characters. -/
  | compressed
  deriving DecidableEq, Repr

/-- The word for an output style. -/
def OutputStyle.name : OutputStyle → String
  | .nested => "nested"
  | .expanded => "expanded"
  | .compact => "compact"
  | .compressed => "compressed"

/-- The output style that a word names. -/
def OutputStyle.ofName? (name : String) : Option OutputStyle :=
  [OutputStyle.nested, .expanded, .compact, .compressed].find? (·.name = name)

/-- The settings of the transform. The fields with optional values override the compiler's
defaults when they are given. -/
structure Settings where
  /-- Directories searched for imports behind the importing file's own. -/
  includePaths : List String
  /-- Macros that are added to the built-in ones or replace them. -/
  macros : Import.Macros
  /-- How imports are hooked. -/
  importing : Importing
  /-- Whether the cache is used. -/
  cache : Bool
  /-- Whether sources are in the indented dialect. -/
  indentedSyntax : Bool
  /-- Files whose text is put before every source. -/
  resources : List String
  /-- Functions that stylesheets may call, by signature. -/
  functions : Table String String
  /-- The source text, in place of the file's. -/
  data : Option String
  /-- The name of the source, in place of the file's. -/
  file : Option String
  /-- Whether a source map is made. -/
  sourceMap : Option Bool
  /-- Whether the source map holds the sources. -/
  sourceMapContents : Option Bool
  /-- The name of the output in the source map. -/
  outFile : Option String
  /-- The output style. -/
  outputStyle : Option OutputStyle
  /-- The number of digits behind the decimal point. -/
  precision : Option Int

namespace Settings

/-- The settings when nothing is given. -/
def default : Settings where
  includePaths := []
  macros := []
  importing := .off
  cache := true
  indentedSyntax := false
  resources := []
  functions := []
  data := none
  file := none
  sourceMap := none
  sourceMapContents := none
  outFile := none
  outputStyle := none
  precision := none

/-- How imports are hooked: a truth value or a hook. -/
def importingOf : Datum → Checked Importing
  | .hook hook => .ok (.custom hook)
  | datum =>
    match truth datum with
    | .ok true => .ok .macros
    | .ok false => .ok .off
    | .error violations =>
      .error (violations.map (·.under (.key "bool")) ++ [⟨[.key "callable"], .callable⟩])

/-- A function of the host. -/
def callable : Datum → Checked String
  | .function name => .ok name
  | _ => broken .callable

/-- The words for the output styles, as violations list them. -/
def styleWords : String := "'nested', 'expanded', 'compact' or 'compressed'"

/-- An output style. -/
def styleOf : Datum → Checked OutputStyle
  | .text name =>
    match OutputStyle.ofName? name with
    | some style => .ok style
    | none => broken (.choice styleWords)
  | _ => broken (.choice styleWords)

/-- A value that may be left open. -/
def optional {α : Type} (check : Datum → Checked α) : Datum → Checked (Option α)
  | .null => .ok none
  | datum => (check datum).map some

/-- The names of a field, the preferred one first. -/
structure Field where
  /-- The name with underscores. -/
  name : String
  /-- The name with hyphens, if that differs. -/
  hyphened : Option String

namespace Field

/-- The field of the directories searched for imports. -/
def includePaths : Field := ⟨"include_paths", some "include-paths"⟩

/-- The field of the macros. -/
def macros : Field := ⟨"macros", none⟩

/-- The field of the import hook. -/
def importing : Field := ⟨"importer", none⟩

/-- The field of the use of the cache. -/
def cache : Field := ⟨"cache", none⟩

/-- The field of the dialect. -/
def indentedSyntax : Field := ⟨"indented_syntax", some "indented-syntax"⟩

/-- The field of the resource files. -/
def resources : Field := ⟨"resources", none⟩

/-- The field of the functions. -/
def functions : Field := ⟨"functions", none⟩

/-- The field of the source text. -/
def data : Field := ⟨"data", none⟩

/-- The field of the source's name. -/
def file : Field := ⟨"file", none⟩

/-- The field of the source map. -/
def sourceMap : Field := ⟨"source_map", some "source-map"⟩

/-- The field of the source map's contents. -/
def sourceMapContents : Field := ⟨"source_map_contents", some "source-map-contents"⟩

/-- The field of the output's name. -/
def outFile : Field := ⟨"out_file", some "out-file"⟩

/-- The field of the output style. -/
def outputStyle : Field := ⟨"output_style", some "output-style"⟩

/-- The field of the precision. -/
def precision : Field := ⟨"precision", none⟩

/-- The name by which a mapping gives the field. -/
def givenBy? (field : Field) (entries : Table String Datum) : Option String :=
  match field.hyphened with
  | some h =>
    if (Table.get? h entries).isSome then some h
    else if (Table.get? field.name entries).isSome then some field.name
    else none
  | none => if (Table.get? field.name entries).isSome then some field.name else none

/-- The checked value of a field in a mapping, or what it is when it is not given. -/
def check {α : Type} (field : Field) (entries : Table String Datum) (otherwise : α)
    (check : Datum → Checked α) : Checked α :=
  match field.givenBy? entries with
  | none => .ok otherwise
  | some key =>
    match Table.get? key entries with
    | none => .ok otherwise
    | some datum => (check datum).under (.key key)

end Field

/-- The fields, in the order in which violations are reported. -/
def fields : List Field :=
  [.includePaths, .macros, .importing, .cache, .indentedSyntax, .resources, .functions, .data,
    .file, .sourceMap, .sourceMapContents, .outFile, .outputStyle, .precision]

/-- The violation of a key that gives no field, if it gives none. -/
def extraKey? (used : List String) : Datum → Option Violation
  | .text key => if key ∈ used then none else some ⟨[.key key], .extra⟩
  | .bytes bytes =>
    match textOfBytes? bytes with
    | some key => if key ∈ used then none else some ⟨[placeOf (.bytes bytes)], .extra⟩
    | none => some ⟨[placeOf (.bytes bytes)], .key⟩
  | key => some ⟨[placeOf key], .key⟩

/-- The entries whose key is a text. -/
def textEntries (entries : List (Datum × Datum)) : Table String Datum :=
  Table.ofList (entries.filterMap fun (key, value) =>
    match key with
    | .text key => some (key, value)
    | _ => none)

/-- The violations of a check. -/
def violationsOf {α : Type} : Checked α → List Violation
  | .ok _ => []
  | .error violations => violations

/-- The settings that a mapping gives, or all its violations: those of the fields in their order,
then those of the other keys in theirs. -/
def ofEntries (entries : List (Datum × Datum)) : Checked Settings :=
  let given := textEntries entries
  let used := fields.filterMap (·.givenBy? given)
  let includePaths := Field.includePaths.check given default.includePaths (list text)
  let macros := Field.macros.check given default.macros (mapping text)
  let importing := Field.importing.check given default.importing importingOf
  let cache := Field.cache.check given default.cache truth
  let indentedSyntax := Field.indentedSyntax.check given default.indentedSyntax truth
  let resources := Field.resources.check given default.resources (list text)
  let functions := Field.functions.check given default.functions (mapping callable)
  let data := Field.data.check given default.data (optional text)
  let file := Field.file.check given default.file (optional text)
  let sourceMap := Field.sourceMap.check given default.sourceMap (optional truth)
  let sourceMapContents :=
    Field.sourceMapContents.check given default.sourceMapContents (optional truth)
  let outFile := Field.outFile.check given default.outFile (optional text)
  let outputStyle := Field.outputStyle.check given default.outputStyle (optional styleOf)
  let precision := Field.precision.check given default.precision (optional integer)
  let extras := entries.filterMap fun (key, _) => extraKey? used key
  let settings : Checked Settings := do
    return {
      includePaths := ← includePaths
      macros := ← macros
      importing := ← importing
      cache := ← cache
      indentedSyntax := ← indentedSyntax
      resources := ← resources
      functions := ← functions
      data := ← data
      file := ← file
      sourceMap := ← sourceMap
      sourceMapContents := ← sourceMapContents
      outFile := ← outFile
      outputStyle := ← outputStyle
      precision := ← precision }
  match settings, extras with
  | .ok settings, [] => .ok settings
  | _, _ =>
    .error
      (violationsOf includePaths ++ violationsOf macros ++ violationsOf importing ++
        violationsOf cache ++ violationsOf indentedSyntax ++ violationsOf resources ++
        violationsOf functions ++ violationsOf data ++ violationsOf file ++
        violationsOf sourceMap ++ violationsOf sourceMapContents ++ violationsOf outFile ++
        violationsOf outputStyle ++ violationsOf precision ++ extras)

/-- A setting that overrides a compiler default, by name. -/
inductive Override
  /-- The source text. -/
  | data (text : String)
  /-- The name of the source. -/
  | file (name : String)
  /-- Whether a source map is made. -/
  | sourceMap (wanted : Bool)
  /-- Whether the source map holds the sources. -/
  | sourceMapContents (wanted : Bool)
  /-- The name of the output. -/
  | outFile (name : String)
  /-- The output style. -/
  | outputStyle (style : OutputStyle)
  /-- The number of digits behind the decimal point. -/
  | precision (digits : Int)
  deriving DecidableEq

/-- The overrides that are given, in the order of the fields. -/
def overrides (s : Settings) : List Override :=
  (s.data.map Override.data).toList ++ (s.file.map Override.file).toList ++
    (s.sourceMap.map Override.sourceMap).toList ++
    (s.sourceMapContents.map Override.sourceMapContents).toList ++
    (s.outFile.map Override.outFile).toList ++ (s.outputStyle.map Override.outputStyle).toList ++
    (s.precision.map Override.precision).toList

end Settings

end StyleBundle
