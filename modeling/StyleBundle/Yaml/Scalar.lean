import StyleBundle.Settings.Datum
import StyleBundle.Text.Base64
import StyleBundle.Text.Blank
import StyleBundle.Text.Quoted
import StyleBundle.Text.Utf8
import StyleBundle.Yaml.Tag

/-!
# The values of scalars

What a scalar of a tag stands for. Underscores in numbers count for nothing. A word may have the
form of its tag and still stand for nothing, such as a thirteenth month.
-/

namespace StyleBundle.Yaml.Scalar

open Settings (Datum)

/-- A word that stands for no value. -/
def senseless {α : Type} (message : String) : Result α := .error (.value message)

/-- The number that digits of a base write; there is one digit at least. -/
def natIn? (base : Nat) (digits : List Char) : Option Nat :=
  if digits.isEmpty then none
  else
    digits.foldlM
      (fun n c => do
        let d ← Json.Reader.hexValue? c
        if d < base then some (n * base + d) else none)
      0

/-- The number that digits of a base write, or else the fault of the word. -/
def natIn (base : Nat) (digits : List Char) : Result Nat :=
  match natIn? base digits with
  | none =>
    senseless s!"invalid literal for int() with base {base}: {Text.quoted (String.ofList digits)}"
  | some n =>
    if base = 10 ∧ Json.maxDigits < digits.length then
      senseless (Json.longIntegerMessage digits.length)
    else .ok n

/-- A number word without underscores and the blanks around it, without its sign, and whether that
was a minus. -/
def signed (text : List Char) : Bool × List Char :=
  let s := Text.trim (text.filter (· ≠ '_'))
  (s.head? = some '-', Tag.dropSign s)

/-- The integer that a word writes: in base two, eight or sixteen behind a zero, in base sixty with
colons, and otherwise in base ten. -/
def int (text : List Char) : Result Int := do
  let (negative, s) := signed text
  let n ←
    match s with
    | [] => senseless "string index out of range"
    | ['0'] => pure 0
    | '0' :: 'b' :: digits => natIn 2 digits
    | '0' :: 'x' :: digits => natIn 16 digits
    | '0' :: _ => natIn 8 s
    | s => (Tag.pieces s).foldlM (fun n piece => return n * 60 + (← natIn 10 piece)) 0
  return if negative then -(n : Int) else n

/-- The digits of a decimal without its point, and the power of ten that they are multiplied by. -/
def decimal? (s : List Char) : Option (Nat × Int) := do
  let whole := s.takeWhile Char.isDigit
  let s := s.drop whole.length
  let (fraction, s) :=
    match s with
    | '.' :: rest => (rest.takeWhile Char.isDigit, rest.dropWhile Char.isDigit)
    | s => ([], s)
  let digits ← natIn? 10 (whole ++ fraction)
  let exponent ←
    match s with
    | [] => some (0 : Int)
    | 'e' :: power => do
      let n ← natIn? 10 (Tag.dropSign power)
      some (if power.head? = some '-' then -(n : Int) else n)
    | _ => none
  return (digits, exponent - fraction.length)

/-- The decimal that a word in base sixty writes; only its last piece may have a fraction. -/
def sexagesimal? (s : List Char) : Option (Nat × Int) := do
  let pieces := Tag.pieces s
  let (last, exponent) ← decimal? (pieces.getLastD [])
  let whole ← pieces.dropLast.foldlM (fun n piece => return n * 60 + (← natIn? 10 piece)) 0
  if whole = 0 then return (last, exponent)
  else if 0 < exponent then none
  else return (whole * 60 * Number.tenTo exponent.natAbs + last, exponent)

/-- The words for infinity, in lower case and without a sign. -/
def infinityWords : List String := [".inf", "inf", "infinity"]

/-- The words for no number, in lower case and without a sign. -/
def noNumberWords : List String := [".nan", "nan"]

/-- The number with a fraction that a word writes. -/
def float (text : List Char) : Result Number.Binary64 :=
  let (negative, s) := signed (text.map Char.toLower)
  let word := String.ofList s
  if word ∈ infinityWords then .ok (.infinite negative)
  else if word ∈ noNumberWords then .ok .nan
  else
    match sexagesimal? s with
    | some (digits, exponent) => .ok (.ofDecimal negative digits exponent)
    | none => senseless s!"could not convert string to float: {Text.quoted word}"

/-- The truth value that a word stands for. -/
def bool (text : String) : Result Bool :=
  let word := String.ofList (text.toList.map Char.toLower)
  if word ∈ ["yes", "true", "on"] then .ok true
  else if word ∈ ["no", "false", "off"] then .ok false
  else senseless (Text.quoted word)

/-- The bytes that a text of base 64 writes. -/
def binary (text : List Char) : Result (List UInt8) :=
  if text.any fun c => 0x7F < c.toNat then refuse "failed to convert base64 data into ascii"
  else
    match Text.Base64.decode text with
    | .ok bytes => .ok bytes
    | .error fault => refuse fault.message

/-- The moment that a word writes, as it is shown. -/
def moment (text : List Char) : Result String :=
  let form := if text.getLast? = some '\n' then text.dropLast else text
  match Moment.parse? form with
  | none => senseless "'NoneType' object has no attribute 'groupdict'"
  | some (m, _) =>
    match m.fault? with
    | some message => senseless message
    | none => .ok m.shown

/-- The value of a scalar with a tag. Tags of collections and tags that the scheme does not know
have no scalars. -/
def value (tag : Tag) (text : String) : Result Datum :=
  match tag with
  | .null => .ok .null
  | .bool => Datum.bool <$> bool text
  | .int => Datum.int <$> int text.toList
  | .float => Datum.float <$> float text.toList
  | .binary => Datum.bytes <$> binary text.toList
  | .timestamp => Datum.moment <$> moment text.toList
  | .str => .ok (.text text)
  | .seq | .omap | .pairs => refuse "expected a sequence, but found a scalar"
  | .map | .set => refuse "expected a mapping, but found a scalar"
  | .merge | .value | .other _ => refuse "could not determine a constructor for the tag"

end StyleBundle.Yaml.Scalar
