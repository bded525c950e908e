import StyleBundle.Yaml.Cursor

/-!
# YAML tokens

The words of a YAML text. Where blocks start and end, and which scalars are keys, is not written
but follows from the indentation; the tokens say it explicitly.
-/

namespace StyleBundle.Yaml

/-- What a directive says. -/
inductive Directive
  /-- The version of YAML. -/
  | version (major minor : Nat)
  /-- What a tag handle stands for. -/
  | handle (name expansion : String)
  /-- Anything else. -/
  | other
  deriving DecidableEq, Repr

/-- A word of a YAML text. -/
inductive Token
  /-- A line with a directive. -/
  | directive (value : Directive)
  /-- The mark at the start of a document. -/
  | documentStart
  /-- The mark at the end of a document. -/
  | documentEnd
  /-- A sequence of indented entries starts. -/
  | blockSequence
  /-- A mapping of indented entries starts. -/
  | blockMapping
  /-- The innermost block ends. -/
  | blockEnd
  /-- An opening bracket. -/
  | openSequence
  /-- A closing bracket. -/
  | closeSequence
  /-- An opening brace. -/
  | openMapping
  /-- A closing brace. -/
  | closeMapping
  /-- The hyphen before an entry. -/
  | entry
  /-- The comma behind an entry. -/
  | comma
  /-- A key follows. -/
  | key
  /-- A value follows. -/
  | value
  /-- A node that stands elsewhere. -/
  | alias (name : String)
  /-- The name of the node that follows. -/
  | anchor (name : String)
  /-- The tag of the node that follows. -/
  | tag (handle : Option String) (suffix : String)
  /-- A text, and whether it stands without quotes and block marks. -/
  | scalar (text : String) (plain : Bool)
  deriving DecidableEq, Repr

end StyleBundle.Yaml
