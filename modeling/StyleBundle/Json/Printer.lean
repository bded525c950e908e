import StyleBundle.Json.Basic

/-!
# JSON text

Values are written on one line. Two styles are in use: relabelled source maps have blanks behind
commas and colons and write every character outside ASCII as an escape; cache entries have no
blanks and write such characters as they are.
-/

namespace StyleBundle.Json

variable {τ : Type} [HasSigns τ]

/-- The choices in which JSON texts of this library differ. -/
structure Style where
  /-- What stands between two items or members. -/
  comma : List Char
  /-- What stands between a name and its value. -/
  colon : List Char
  /-- Whether characters outside printable ASCII are escaped. -/
  ascii : Bool

/-- Source maps: blanks behind separators, ASCII only. -/
def Style.spaced : Style := ⟨[',', ' '], [':', ' '], true⟩

/-- Cache entries: no blanks, characters as they are. -/
def Style.compact : Style := ⟨[','], [':'], false⟩

/-- A four-digit escape of a number below 65536. -/
def escapeUnit (n : Nat) : List Char :=
  '\\' :: 'u' :: [12, 8, 4, 0].map fun shift => Nat.digitChar ((n >>> shift) % 16)

/-- A character inside a JSON text. Past 65535 the escape is a pair of surrogates. -/
def encodeChar (ascii : Bool) (c : Char) : List Char :=
  if c = '"' then ['\\', '"']
  else if c = '\\' then ['\\', '\\']
  else if c = '\n' then ['\\', 'n']
  else if c = '\r' then ['\\', 'r']
  else if c = '\t' then ['\\', 't']
  else if c.toNat = 8 then ['\\', 'b']
  else if c.toNat = 12 then ['\\', 'f']
  else if c.toNat < 0x20 then escapeUnit c.toNat
  else if ascii = false ∨ c.toNat < 0x7F then [c]
  else if c.toNat < 0x10000 then escapeUnit c.toNat
  else
    escapeUnit (0xD800 + (c.toNat - 0x10000) / 0x400) ++
      escapeUnit (0xDC00 + (c.toNat - 0x10000) % 0x400)

/-- A sign inside a JSON text. Half of a pair of surrogates has no other form than its escape. -/
def encodeSign (ascii : Bool) : Sign → List Char
  | .char c => encodeChar ascii c
  | .half index => escapeUnit (0xD800 + index)

/-- A text between quotes. -/
def encodeText (ascii : Bool) (t : τ) : List Char :=
  '"' :: (HasSigns.signs t).flatMap (encodeSign ascii) ++ ['"']

/-- An integer in base ten. -/
def encodeInt : Int → List Char
  | .ofNat n => Nat.toDigits 10 n
  | .negSucc n => '-' :: Nat.toDigits 10 (n + 1)

mutual

/-- The text of a value. -/
def encode (style : Style) : Json τ → List Char
  | .null => "null".toList
  | .bool true => "true".toList
  | .bool false => "false".toList
  | .int n => encodeInt n
  | .float x => (x.text "Infinity" "NaN").toList
  | .str s => encodeText style.ascii s
  | .arr items => '[' :: encodeItems style items ++ [']']
  | .obj members => '\x7b' :: encodeMembers style members ++ ['\x7d']

/-- The items of an array, separated. -/
def encodeItems (style : Style) : List (Json τ) → List Char
  | [] => []
  | [item] => encode style item
  | item :: next :: rest => encode style item ++ style.comma ++ encodeItems style (next :: rest)

/-- The members of an object, separated. -/
def encodeMembers (style : Style) : List (τ × Json τ) → List Char
  | [] => []
  | [(name, value)] => encodeText style.ascii name ++ style.colon ++ encode style value
  | (name, value) :: next :: rest =>
    encodeText style.ascii name ++ style.colon ++ encode style value ++ style.comma ++
      encodeMembers style (next :: rest)

end

/-- The text of a value. -/
def print (style : Style) (v : Json τ) : String := String.ofList (encode style v)

end StyleBundle.Json
