import StyleBundle.Settings.Datum
import StyleBundle.Settings.Violation
import StyleBundle.Text.Quoted
import StyleBundle.Text.Utf8

/-!
# Coercion

A field takes a value of its own kind and some values that stand for one. A truth value may be
given as zero, one or a word; an integer as a truth value, a number without fraction or a text of
digits; a list as a set. Bytes stand for the text that they encode. What cannot be taken is
answered with the rules that it breaks.
-/

namespace StyleBundle.Settings

/-- The outcome of a check: a value, or all violations. -/
abbrev Checked (α : Type) := Except (List Violation) α

/-- A value that breaks one rule. -/
def broken {α : Type} (rule : Rule) : Checked α := .error [⟨[], rule⟩]

/-- The outcome of a check seen from one step further out. -/
def Checked.under {α : Type} (step : Place) : Checked α → Checked α
  | .ok value => .ok value
  | .error violations => .error (violations.map (·.under step))

/-- The words for yes. -/
def yesWords : List String := ["1", "on", "t", "true", "y", "yes"]

/-- The words for no. -/
def noWords : List String := ["0", "off", "f", "false", "n", "no"]

/-- The truth value that a word stands for, in any case. -/
def truthOfWord (word : String) : Checked Bool :=
  let word := String.ofList (word.toList.map Char.toLower)
  if word ∈ yesWords then .ok true
  else if word ∈ noWords then .ok false
  else broken .truthWord

/-- One more than the greatest number that is held in 64 bits with a sign. -/
def wordLimit : Int := 0x8000000000000000

/-- Whether a number is held in 64 bits with a sign. -/
def isWordSized (n : Int) : Bool := -wordLimit ≤ n && n < wordLimit

/-- The truth value that an integer stands for. -/
def truthOfInt (n : Int) : Checked Bool :=
  if n = 0 then .ok false
  else if n = 1 then .ok true
  else broken .truthWord

/-- The text that bytes encode. -/
def textOfBytes? (bytes : List UInt8) : Option String :=
  match Text.Utf8.decode bytes with
  | .ok s => some (String.ofList s)
  | .error _ => none

/-- The integer that a number without fraction is. Only numbers inside 64 bits are taken. -/
def intOfFloat (x : Number.Binary64) : Checked Int :=
  match x with
  | .infinite _ | .nan => broken .finite
  | .finite .. =>
    match x.toInt? with
    | none => broken .fraction
    | some n => if -wordLimit < n ∧ n < wordLimit then .ok n else broken .integerSize

/-- A truth value. -/
def truth : Datum → Checked Bool
  | .bool b => .ok b
  | .text word => truthOfWord word
  | .bytes bytes =>
    match textOfBytes? bytes with
    | some word => truthOfWord word
    | none => broken .truthWord
  | .int n => if isWordSized n then truthOfInt n else broken .truth
  | .float x =>
    match intOfFloat x with
    | .ok n => truthOfInt n
    | .error _ => broken .truth
  | _ => broken .truth

/-- White space around a number: like other blanks, but without the information separators. -/
def isSpace (c : Char) : Bool :=
  let n := c.toNat
  (0x09 ≤ n && n ≤ 0x0D) || n == 0x20 || n == 0x85 || n == 0xA0 || n == 0x1680 ||
    (0x2000 ≤ n && n ≤ 0x200A) || n == 0x2028 || n == 0x2029 || n == 0x202F || n == 0x205F ||
    n == 0x3000

/-- The digits of a number without leading zeros, but not without the last one. A minus sign ends
the search; anything else but a point or a digit behind zeros makes it no number. -/
def dropLeadingZeros : List Char → Option (List Char)
  | [] => none
  | '0' :: rest =>
    match rest.dropWhile (· = '0') with
    | [] => some ['0']
    | c :: more =>
      if c = '.' then some ('0' :: c :: more)
      else if c.isDigit then some (c :: more)
      else none
  | c :: rest => if c.isDigit ∨ c = '-' then some (c :: rest) else none

/-- The number without a fraction that is all zeros. -/
def dropZeroFraction (s : List Char) : List Char :=
  let whole := s.takeWhile (· ≠ '.')
  match s.drop whole.length with
  | _ :: fraction => if !fraction.isEmpty && fraction.all (· = '0') then whole else s
  | [] => s

/-- The number without the underscores between its digits. -/
def dropUnderscores (s : List Char) : List Char :=
  let lone := !(Text.contains "__".toList s)
  if s.head? ≠ some '_' ∧ s.getLast? ≠ some '_' ∧ lone then s.filter (· ≠ '_') else s

/-- The integer that a plain row of digits writes, with a minus sign perhaps and no needless
zero. -/
def plainInt? (s : List Char) : Option Int :=
  let digits (s : List Char) : Option Nat :=
    if s.isEmpty ∨ !s.all Char.isDigit ∨ (1 < s.length ∧ s.head? = some '0') then none
    else some (s.foldl (fun n c => n * 10 + (c.toNat - 48)) 0)
  match s with
  | '-' :: rest => (digits rest).map fun n => -(n : Int)
  | _ => (digits s).map fun n => (n : Int)

/-- The text of an integer with what may stand around it taken away. -/
def cleanInt? (s : List Char) : Option (List Char) :=
  let s := ((s.dropWhile isSpace).reverse.dropWhile isSpace).reverse
  let s? :=
    match s with
    | '+' :: '-' :: _ => none
    | '+' :: rest => some rest
    | s => some s
  s?.bind fun s => (dropLeadingZeros s).map fun s => dropUnderscores (dropZeroFraction s)

/-- The most digits of an integer given as a text. -/
def maxIntDigits : Nat := 4300

/-- The integer that a text writes. -/
def intOfText (text : String) : Checked Int :=
  let s := text.toList
  match cleanInt? s with
  | none => broken .integerText
  | some cleaned =>
    match plainInt? cleaned with
    | none => broken .integerText
    | some n => if maxIntDigits < cleaned.length then broken .integerSize else .ok n

/-- An integer. -/
def integer : Datum → Checked Int
  | .int n => .ok n
  | .bool b => .ok (if b then 1 else 0)
  | .float x => intOfFloat x
  | .text s => intOfText s
  | .bytes bytes =>
    match textOfBytes? bytes with
    | some s => intOfText s
    | none => broken .integerText
  | _ => broken .integer

/-- A text. -/
def text : Datum → Checked String
  | .text s => .ok s
  | .bytes bytes =>
    match textOfBytes? bytes with
    | some s => .ok s
    | none => broken .unicode
  | _ => broken .text

/-- The checked values, if all are, and else the violations of all. -/
def collect {α : Type} : List (Checked α) → Checked (List α)
  | [] => .ok []
  | first :: rest =>
    match first, collect rest with
    | .ok value, .ok values => .ok (value :: values)
    | .ok _, .error violations | .error violations, .ok _ => .error violations
    | .error here, .error later => .error (here ++ later)

/-- A list, with a check for its items. -/
def list {α : Type} (item : Datum → Checked α) : Datum → Checked (List α)
  | .list items | .set items =>
    collect (items.mapIdx fun i datum => (item datum).under (.index i))
  | _ => broken .list

/-- Bytes as they are shown. -/
def showBytes (bytes : List UInt8) : String :=
  let quote := if 39 ∈ bytes ∧ 34 ∉ bytes then '"' else '\''
  let show1 (b : UInt8) : List Char :=
    let c := Char.ofNat b.toNat
    if c = quote ∨ c = '\\' then ['\\', c]
    else if c = '\t' then ['\\', 't']
    else if c = '\n' then ['\\', 'n']
    else if c = '\r' then ['\\', 'r']
    else if 0x20 ≤ b.toNat ∧ b.toNat < 0x7F then [c]
    else '\\' :: 'x' :: Text.Quoted.hex 2 b.toNat
  String.ofList ('b' :: quote :: bytes.flatMap show1 ++ [quote])

/-- The place of the value of a key. Truth values count as integers, and an integer outside 64
bits is shown as a text, like all other keys. -/
def placeOf : Datum → Place
  | .text s => .key s
  | .int n => if isWordSized n then .index n else .key (toString n)
  | .bool b => .index (if b then 1 else 0)
  | .null => .key "None"
  | .float x => .key (x.text "inf" "nan")
  | .bytes bytes => .key (showBytes bytes)
  | .moment shown => .key shown
  | .list _ => .key "[...]"
  | .set _ => .key "{...}"
  | .mapping _ => .key "{...}"
  | .hook _ => .key "<hook>"
  | .function name => .key name

/-- A mapping from texts, with a check for its values. -/
def mapping {α : Type} (value : Datum → Checked α) : Datum → Checked (Table String α)
  | .mapping entries =>
    let checked := entries.map fun (key, datum) =>
      let place := placeOf key
      match (text key).under (.key "[key]") |>.under place, (value datum).under place with
      | .ok name, .ok v => .ok (name, v)
      | .ok _, .error violations | .error violations, .ok _ => .error violations
      | .error here, .error later => .error (here ++ later)
    (collect checked).map Table.ofList
  | _ => broken .mapping

end StyleBundle.Settings
