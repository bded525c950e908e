import StyleBundle.Disk.Basic
import StyleBundle.Json.Reader
import StyleBundle.Settings.Violation
import StyleBundle.Text.Base64

/-!
# Failures

Every operation that can fail answers with one of the causes collected here. The wording of a
cause is a function of it, so that what is shown never differs from what went wrong.
-/

namespace StyleBundle

/-- Why settings cannot be loaded from a file. -/
inductive SettingsFault
  /-- The file cannot be read. -/
  | unreadable (path : String) (fault : Disk.Fault)
  /-- The file holds no YAML. -/
  | notYaml (path reason : String)
  /-- The file holds YAML, but no mapping. -/
  | notMapping (path : String)
  /-- The mapping breaks the schema of the settings. -/
  | invalid (path : String) (violations : List Violation)
  deriving DecidableEq

/-- The wording of a fault in a settings file. -/
def SettingsFault.message : SettingsFault → String
  | .unreadable path fault => s!"Cannot read plugin config '{path}': {fault.message}"
  | .notYaml path reason => s!"Invalid YAML in plugin config '{path}': {reason}"
  | .notMapping path => s!"{path}: plugin config must be a YAML mapping"
  | .invalid path violations =>
    s!"Invalid plugin config '{path}': {Violation.summary violations}"

/-- Why a cache entry cannot be used. -/
inductive CacheFault
  /-- The entry cannot be read. -/
  | unreadable (path : String) (fault : Disk.Fault)
  /-- The entry breaks the schema. -/
  | invalid (path : String) (violations : List Violation)
  /-- The entry is of another version of the format. -/
  | version (path found : String)
  /-- The entry cannot be written. -/
  | unwritable (path : String) (fault : Disk.Fault)
  deriving DecidableEq

/-- The wording of a fault in the cache. -/
def CacheFault.message : CacheFault → String
  | .unreadable path fault => s!"Cannot read cache entry '{path}': {fault.message}"
  | .invalid path violations =>
    s!"Invalid cache entry '{path}': {Violation.summary violations}"
  | .version path found =>
    s!"Unsupported cache format version in '{path}': {Text.quoted found}"
  | .unwritable path fault => s!"Cannot write cache entry '{path}': {fault.message}"

/-- Why a source map that is JSON cannot be relabelled; the text names the kind of value. -/
inductive MapFault
  /-- The map is a list, which has no named members. -/
  | list
  /-- The map is a value whose members cannot be set. -/
  | fixed (kind : String)
  /-- The map is a value without members. -/
  | memberless (kind : String)
  /-- The sources are a value without items. -/
  | itemless (kind : String)
  deriving DecidableEq

/-- The wording of a fault in the shape of a source map. -/
def MapFault.message : MapFault → String
  | .list => "list indices must be integers or slices, not str"
  | .fixed kind => s!"'{kind}' object does not support item assignment"
  | .memberless kind => s!"'{kind}' object has no attribute 'get'"
  | .itemless kind => s!"'{kind}' object is not iterable"

/-- Why an operation fails. -/
inductive Failure
  /-- The disk refuses. -/
  | disk (fault : Disk.Fault)
  /-- A file holds no UTF-8. -/
  | undecodable (fault : Text.Utf8.Fault)
  /-- A file stands outside the directory of the project's sources. -/
  | outside (path home : String)
  /-- A chain of imports comes back to a file on it. -/
  | importCycle
  /-- Settings cannot be loaded. -/
  | settings (fault : SettingsFault)
  /-- A cache entry cannot be used. -/
  | cache (fault : CacheFault)
  /-- Values given by the host break the schema of the settings. -/
  | invalid (violations : List Violation)
  /-- A word of the settings names no number, date or time. -/
  | scalar (message : String)
  /-- An embedded source map is no base 64. -/
  | base64 (fault : Text.Base64.Fault)
  /-- A source map is no JSON. -/
  | json (fault : Json.Fault) (text : String)
  /-- A source map is JSON of the wrong shape. -/
  | map (fault : MapFault)
  /-- A number has more digits than are converted. -/
  | longNumber (digits : Nat)
  /-- The style engine refuses the stylesheet. -/
  | stylesheet (message : String)
  /-- A compiler, an engine or an import hook fails for reasons of its own. -/
  | raised (message : String)
  /-- A compiler reports neither an error nor a result. -/
  | noOutcome
  /-- There is no style engine. -/
  | noEngine
  deriving DecidableEq

/-- The wording of a failure. -/
def Failure.message : Failure → String
  | .disk fault => fault.message
  | .undecodable fault => fault.message
  | .outside path home =>
    s!"{Text.quoted path} is not in the subpath of {Text.quoted home} OR one path is relative " ++
      "and the other is absolute."
  | .importCycle => "circular @import"
  | .settings fault => fault.message
  | .cache fault => fault.message
  | .invalid violations => Violation.summary violations
  | .scalar message => message
  | .base64 fault => fault.message
  | .json fault text => fault.message text
  | .map fault => fault.message
  | .longNumber digits => Json.longIntegerMessage digits
  | .stylesheet message => message
  | .raised message => message
  | .noOutcome => ""
  | .noEngine => "import of sass halted; None in sys.modules"

/-- Two steps in a row succeed one after the other. -/
theorem exists_of_bind {ε α β : Type} {x : Except ε α} {f : α → Except ε β} {b : β}
    (h : (x >>= f) = .ok b) : ∃ a, x = .ok a ∧ f a = .ok b := by
  cases x with
  | error fault => cases h
  | ok a => exact ⟨a, rfl, h⟩

end StyleBundle
