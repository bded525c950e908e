import StyleBundle.Yaml.Moment

/-!
# Tags

A tag says what kind of value a node is. A node may carry one, and a plain scalar without one gets
the tag that its form implies: `yes` is a truth value, `0x1F` an integer, `12:30` an integer in
base sixty, `2020-01-01` a date. Everything else is a text.
-/

namespace StyleBundle.Yaml

/-- What kind of value a node is. -/
inductive Tag
  /-- Nothing. -/
  | null
  /-- A truth value. -/
  | bool
  /-- An integer. -/
  | int
  /-- A number with a fraction. -/
  | float
  /-- Bytes, written in base 64. -/
  | binary
  /-- A date or a time. -/
  | timestamp
  /-- A text. -/
  | str
  /-- A sequence. -/
  | seq
  /-- A mapping. -/
  | map
  /-- Keys without values. -/
  | set
  /-- An ordered mapping, written as a sequence of single pairs. -/
  | omap
  /-- A row of pairs. -/
  | pairs
  /-- The key whose value is merged into its mapping. -/
  | merge
  /-- The key of the value that stands for its mapping. -/
  | value
  /-- Any other kind. -/
  | other (name : String)
  deriving DecidableEq, Repr

namespace Tag

/-- What the names of the standard tags start with. -/
def standard : String := "tag:yaml.org,2002:"

/-- The tags with short names. -/
def named : List (String × Tag) :=
  [("null", .null), ("bool", .bool), ("int", .int), ("float", .float), ("binary", .binary),
    ("timestamp", .timestamp), ("str", .str), ("seq", .seq), ("map", .map), ("set", .set),
    ("omap", .omap), ("pairs", .pairs), ("merge", .merge), ("value", .value)]

/-- The tag of a full name. -/
def ofName (name : String) : Tag :=
  match named.find? fun (short, _) => standard ++ short = name with
  | some (_, tag) => tag
  | none => .other name

/-! ## The forms of plain scalars -/

/-- The words for nothing. -/
def nullWords : List String := ["~", "null", "Null", "NULL", ""]

/-- The words for truth values. -/
def boolWords : List String :=
  ["yes", "Yes", "YES", "no", "No", "NO", "true", "True", "TRUE", "false", "False", "FALSE", "on",
    "On", "ON", "off", "Off", "OFF"]

/-- A text without its sign, if it has one. -/
def dropSign (s : List Char) : List Char :=
  match s with
  | c :: rest => if c = '+' ∨ c = '-' then rest else s
  | [] => []

/-- Whether a character is a decimal digit or an underscore. -/
def isSpacedDigit (c : Char) : Bool := c.isDigit || c = '_'

/-- Whether a text starts with a decimal digit and goes on with digits and underscores. -/
def isSpacedNumber (s : List Char) : Bool :=
  match s with
  | c :: rest => c.isDigit && rest.all isSpacedDigit
  | [] => false

/-- Whether a text is a number below sixty of one or two digits. -/
def isSixtieth : List Char → Bool
  | [c] => c.isDigit
  | [c, d] => '0' ≤ c && c ≤ '5' && d.isDigit
  | _ => false

/-- The pieces of a text between colons. -/
def pieces (s : List Char) : List (List Char) :=
  s.foldr
    (fun c acc =>
      if c = ':' then [] :: acc
      else
        match acc with
        | [] => [[c]]
        | piece :: more => (c :: piece) :: more)
    [[]]

/-- Whether a text writes a number in base sixty. -/
def isSexagesimal (s : List Char) : Bool :=
  match pieces s with
  | first :: second :: more => isSpacedNumber first && (second :: more).all isSixtieth
  | _ => false

/-- Whether a text has the form of an integer. -/
def isInt (s : List Char) : Bool :=
  let s := dropSign s
  match s with
  | ['0'] => true
  | '0' :: 'b' :: digits =>
    !digits.isEmpty && digits.all fun c => c = '0' || c = '1' || c = '_'
  | '0' :: 'x' :: digits =>
    !digits.isEmpty &&
      digits.all fun c =>
        isSpacedDigit c || ('a' ≤ c && c ≤ 'f') || ('A' ≤ c && c ≤ 'F')
  | '0' :: digits => digits.all fun c => ('0' ≤ c && c ≤ '7') || c = '_'
  | s => isSpacedNumber s || isSexagesimal s

/-- Whether a text is an exponent with a sign, or nothing. -/
def isExponent : List Char → Bool
  | [] => true
  | _ :: sign :: digits =>
    (sign = '+' || sign = '-') && !digits.isEmpty && digits.all Char.isDigit
  | _ => false

/-- The words for infinity and for no number, without their point. -/
def infinityWords : List (List Char) := ["inf".toList, "Inf".toList, "INF".toList]

/-- The words for no number. -/
def noNumberWords : List (List Char) := [".nan".toList, ".NaN".toList, ".NAN".toList]

/-- Whether a text has the form of a number with a fraction. -/
def isFloat (s : List Char) : Bool :=
  let unsigned := dropSign s
  let isE (c : Char) : Bool := c = 'e' || c = 'E'
  let mantissa := unsigned.takeWhile (!isE ·)
  let exponent := unsigned.dropWhile (!isE ·)
  let whole := mantissa.takeWhile (· ≠ '.')
  match mantissa.dropWhile (· ≠ '.') with
  | [] => s ∈ noNumberWords
  | _ :: fraction =>
    (isSpacedNumber whole && fraction.all isSpacedDigit && isExponent exponent) ||
      (whole.isEmpty && unsigned = s && isSpacedNumber fraction && isExponent exponent) ||
      (isSexagesimal whole && fraction.all isSpacedDigit && exponent.isEmpty) ||
      (whole.isEmpty && unsigned.drop 1 ∈ infinityWords) || s ∈ noNumberWords

/-- The tag that the form of a plain scalar implies. A form may end with one line break. -/
def ofPlain (text : String) : Tag :=
  let chars := text.toList
  let form := if 1 < chars.length ∧ chars.getLast? = some '\n' then chars.dropLast else chars
  let word := String.ofList form
  if word ∈ nullWords then .null
  else if word ∈ boolWords then .bool
  else if isFloat form then .float
  else if isInt form then .int
  else if ((Moment.parse? form).map Prod.snd).getD false then .timestamp
  else if word = "<<" then .merge
  else if word = "=" then .value
  else if word ∈ ["!", "&", "*"] then .other "tag:yaml.org,2002:yaml"
  else .str

end Tag

end StyleBundle.Yaml
