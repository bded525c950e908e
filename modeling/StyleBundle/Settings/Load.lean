import StyleBundle.Disk.Reading
import StyleBundle.Failure
import StyleBundle.Settings.Basic
import StyleBundle.Yaml.Document

/-!
# Settings files

Settings are kept in a file of YAML. An empty file gives the settings when nothing is given.
-/

namespace StyleBundle.Settings

/-- The usual name of a settings file. -/
def fileName : String := ".sassplugin.yaml"

/-- The libraries that read settings: the one for YAML, and the one that checks what it has read. -/
class Reader where
  /-- The value that a text of YAML holds. Reading fails for the syntax, or in a way of its own. -/
  parse : String → Except Yaml.Fault Datum
  /-- The settings that the entries of a mapping give, or what is wrong with them. -/
  validate : List (Datum × Datum) → Checked Settings

/-- A text is read by the grammar of YAML and checked field by field. -/
instance fieldwise : Reader := ⟨Yaml.read, ofEntries⟩

/-- The entries of a mapping. Nothing stands for an empty one. -/
def entries? : Datum → Option (List (Datum × Datum))
  | .null => some []
  | .mapping entries => some entries
  | _ => none

variable [Reader]

/-- The settings that a text of YAML gives; `path` is where it stands. -/
def ofYaml (path text : String) : Except Failure Settings :=
  match Reader.parse text with
  | .error (.syntactic reason) => .error (.settings (.notYaml path reason))
  | .error (.value message) => .error (.scalar message)
  | .ok datum =>
    match entries? datum with
    | none => .error (.settings (.notMapping path))
    | some entries =>
      match Reader.validate entries with
      | .ok settings => .ok settings
      | .error violations => .error (.settings (.invalid path violations))

variable [Limits]

/-- The settings in a file. A path that no disk takes and text that is no UTF-8 are failures of
their own. -/
def load (d : Disk) (path : String) : Except Failure Settings :=
  match d.readText path with
  | .ok text => ofYaml path text
  | .error (.disk (.refused cause p)) => .error (.settings (.unreadable path (.refused cause p)))
  | .error failure => .error failure

end StyleBundle.Settings
