/-!
# Violations

Settings and cache entries are checked against their schema. A check goes through all fields and
reports every violation with the place where it was found.
-/

namespace StyleBundle

/-- A step on the way to a checked value. -/
inductive Place
  /-- The value of a key. -/
  | key (name : String)
  /-- An item of a list, or the value of an integer key. -/
  | index (i : Int)
  deriving DecidableEq, Repr

/-- What a checked value does not keep to. -/
inductive Rule
  /-- The schema has no such key. -/
  | extra
  /-- A key that has to be given is not. -/
  | missing
  /-- A key has to be a text. -/
  | key
  /-- A text is needed. -/
  | text
  /-- A text is needed, and the bytes given are no UTF-8. -/
  | unicode
  /-- A list is needed. -/
  | list
  /-- A JSON array is needed. -/
  | array
  /-- A mapping is needed. -/
  | mapping
  /-- A JSON object is needed. -/
  | object
  /-- A truth value is needed. -/
  | truth
  /-- A truth value is needed, and what is given says neither yes nor no. -/
  | truthWord
  /-- An integer is needed. -/
  | integer
  /-- An integer is needed, and the text given writes none. -/
  | integerText
  /-- An integer is needed, and what is given is too large. -/
  | integerSize
  /-- An integer is needed, and the number given has a fraction. -/
  | fraction
  /-- An integer is needed, and the number given is not finite. -/
  | finite
  /-- A function is needed. -/
  | callable
  /-- One of a few words is needed; the text lists them. -/
  | choice (expected : String)
  /-- The text checked is no JSON. -/
  | json
  deriving DecidableEq, Repr

/-- The name of a rule. -/
def Rule.name : Rule → String
  | .extra => "extra_forbidden"
  | .missing => "missing"
  | .key => "invalid_key"
  | .text => "string_type"
  | .unicode => "string_unicode"
  | .list | .array => "list_type"
  | .mapping => "dict_type"
  | .object => "model_type"
  | .truth => "bool_type"
  | .truthWord => "bool_parsing"
  | .integer => "int_type"
  | .integerText => "int_parsing"
  | .integerSize => "int_parsing_size"
  | .fraction => "int_from_float"
  | .finite => "finite_number"
  | .callable => "callable_type"
  | .choice _ => "literal_error"
  | .json => "json_invalid"

/-- The wording of a rule. -/
def Rule.message : Rule → String
  | .extra => "Extra inputs are not permitted"
  | .missing => "Field required"
  | .key => "Keys should be strings"
  | .text => "Input should be a valid string"
  | .unicode => "Input should be a valid string, unable to parse raw data as a unicode string"
  | .list => "Input should be a valid list"
  | .array => "Input should be a valid array"
  | .mapping => "Input should be a valid dictionary"
  | .object => "Input should be an object"
  | .truth => "Input should be a valid boolean"
  | .truthWord => "Input should be a valid boolean, unable to interpret input"
  | .integer => "Input should be a valid integer"
  | .integerText => "Input should be a valid integer, unable to parse string as an integer"
  | .integerSize => "Unable to parse input string as an integer, exceeded maximum size"
  | .fraction => "Input should be a valid integer, got a number with a fractional part"
  | .finite => "Input should be a finite number"
  | .callable => "Input should be callable"
  | .choice expected => s!"Input should be {expected}"
  | .json => "Invalid JSON"

/-- A rule that is not kept, and where. -/
structure Violation where
  /-- The way to the value, from the outside in. -/
  place : List Place
  /-- The rule that the value breaks. -/
  rule : Rule
  deriving DecidableEq, Repr

namespace Violation

/-- The violation seen from one step further out. -/
def under (step : Place) (v : Violation) : Violation := { v with place := step :: v.place }

/-- A step as text. -/
def stepText : Place → String
  | .key name => name
  | .index i => toString i

/-- The violation as one line. -/
def line (v : Violation) : String :=
  ".".intercalate (v.place.map stepText) ++ ": " ++ v.rule.message

/-- All violations as one text, a line each. -/
def summary (violations : List Violation) : String := "\n".intercalate (violations.map line)

end Violation

end StyleBundle
