import StyleBundle.Failure
import StyleBundle.Json.Printer

/-!
# Cache entries

An entry is a compiled stylesheet as it is stored: a JSON object with six members in a fixed
order. Reading checks the members against that schema and reports every violation; members that
have a default may be left out.
-/

namespace StyleBundle.Cache

/-- The version of the format that is written and accepted. -/
def formatVersion : String := "1"

/-- A compiled stylesheet as it is stored. -/
structure Entry where
  /-- The version of the format. -/
  version : String
  /-- The path of the source. -/
  path : String
  /-- The tag of the transform that compiled it. -/
  tag : String
  /-- The compiled text. -/
  contents : String
  /-- Its source map. -/
  sourceMap : Option String
  /-- The files that the compile depended on. -/
  dependencies : List String
  deriving DecidableEq, Repr

namespace Entry

/-- An entry as JSON. -/
def toJson (e : Entry) : Json :=
  .obj
    [("v", .str e.version), ("path", .str e.path), ("tag", .str e.tag),
      ("contents", .str e.contents),
      ("source_map", (e.sourceMap.map Json.str).getD .null),
      ("dependencies", .arr (e.dependencies.map Json.str))]

/-- The text of an entry. -/
def print (e : Entry) : String := e.toJson.print .compact

/-- The outcome of a check: a value, or all violations. -/
abbrev Checked (α : Type) := Except (List Violation) α

/-- A text. -/
def text (place : List Place) : Json → Checked String
  | .str s => .ok s
  | _ => .error [⟨place, .text⟩]

/-- A text or nothing. -/
def optionalText (place : List Place) : Json → Checked (Option String)
  | .str s => .ok (some s)
  | .null => .ok none
  | _ => .error [⟨place, .text⟩]

/-- The texts of a list from an index on. -/
def textItems (place : List Place) (index : Nat) : List Json → Checked (List String)
  | [] => .ok []
  | item :: rest =>
    match text (place ++ [.index index]) item, textItems place (index + 1) rest with
    | .ok s, .ok more => .ok (s :: more)
    | .ok _, .error violations | .error violations, .ok _ => .error violations
    | .error here, .error later => .error (here ++ later)

/-- A list of texts. -/
def texts (place : List Place) : Json → Checked (List String)
  | .arr items => textItems place 0 items
  | _ => .error [⟨place, .array⟩]

/-- A member, or its default if it has one and is left out. -/
def member {α : Type} (members : Table String Json) (name : String) (otherwise : Option α)
    (check : List Place → Json → Checked α) : Checked α :=
  match Table.get? name members, otherwise with
  | some v, _ => check [.key name] v
  | none, some otherwise => .ok otherwise
  | none, none => .error [⟨[.key name], .missing⟩]

/-- The names of the members. -/
def memberNames : List String := ["v", "path", "tag", "contents", "source_map", "dependencies"]

/-- The violations of a check. -/
def violationsOf {α : Type} : Checked α → List Violation
  | .ok _ => []
  | .error violations => violations

/-- The entry that members make, or all violations: those of the known members in order, then the
unknown members. -/
def ofMembers (members : Table String Json) : Checked Entry :=
  let version := member members "v" (some formatVersion) text
  let path := member members "path" none text
  let tag := member members "tag" none text
  let contents := member members "contents" none text
  let sourceMap := member members "source_map" (some none) optionalText
  let dependencies := member members "dependencies" (some []) texts
  let extras := (members.filter (·.1 ∉ memberNames)).map fun (name, _) => ⟨[.key name], .extra⟩
  match version, path, tag, contents, sourceMap, dependencies, extras with
  | .ok version, .ok path, .ok tag, .ok contents, .ok sourceMap, .ok dependencies, [] =>
    .ok ⟨version, path, tag, contents, sourceMap, dependencies⟩
  | _, _, _, _, _, _, _ =>
    .error
      (violationsOf version ++ violationsOf path ++ violationsOf tag ++ violationsOf contents ++
        violationsOf sourceMap ++ violationsOf dependencies ++ extras)

/-- The entry that JSON makes. -/
def ofJson : Json → Checked Entry
  | .obj members => ofMembers members
  | _ => .error [⟨[], .object⟩]

/-- The entry that a text makes. -/
def read (s : String) : Checked Entry :=
  match Json.read s with
  | .ok v => ofJson v
  | .error _ => .error [⟨[], .json⟩]

/-- The library that reads the text of an entry and checks it. -/
class Reader where
  /-- The entry that a text makes, or what is wrong with the text. -/
  read : String → Checked Entry

/-- A text is read as JSON and checked member by member. -/
instance memberwise : Reader := ⟨Entry.read⟩

end Entry

end StyleBundle.Cache
