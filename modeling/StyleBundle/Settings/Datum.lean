import StyleBundle.Import.Hook
import StyleBundle.Number.Binary64

/-!
# Data that settings are read from

Settings come from a file or from the host as data without a schema: texts, numbers, dates,
lists, sets and mappings with keys of any kind. The host may also hand over hooks and functions.
-/

namespace StyleBundle.Settings

/-- A value without a schema. -/
inductive Datum
  /-- Nothing. -/
  | null
  /-- A truth value. -/
  | bool (value : Bool)
  /-- An integer. -/
  | int (value : Int)
  /-- A number with a fraction. -/
  | float (value : Number.Binary64)
  /-- A text. -/
  | text (value : String)
  /-- Bytes. -/
  | bytes (value : List UInt8)
  /-- A date, or a date with a time, as it is shown. -/
  | moment (shown : String)
  /-- A row of values. -/
  | list (items : List Datum)
  /-- Values without order. -/
  | set (items : List Datum)
  /-- Values by key, with keys of any kind. -/
  | mapping (entries : List (Datum × Datum))
  /-- An import hook. -/
  | hook (value : Import.Hook)
  /-- A function of the host, by name. -/
  | function (name : String)
  deriving Inhabited

end StyleBundle.Settings
