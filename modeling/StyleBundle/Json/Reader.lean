import StyleBundle.Json.Basic
import StyleBundle.Text.Search

/-!
# Reading JSON

The reader takes a whole text and answers with its value or with the first fault and its place.
It accepts the three words for the infinities and for no number, as the printer writes them, and
of a name that comes twice it keeps the first place and the last value. It goes down into lists and
objects by calls, of which there may be only so many at a time.

The place of a fault is carried as the number of characters that are still to be read there, so
that no function has to count what it has consumed.
-/

namespace StyleBundle.Json

/-- What is wrong at a place in a JSON text. -/
inductive Fault.Kind
  /-- The text starts with a byte order mark. -/
  | byteOrderMark
  /-- No value starts here. -/
  | value
  /-- A member has to start with its quoted name. -/
  | name
  /-- A name is not followed by a colon. -/
  | colon
  /-- An item or member is followed neither by a comma nor by the end. -/
  | comma
  /-- Something follows the value. -/
  | extra
  /-- A quoted text does not end. -/
  | unterminated
  /-- A quoted text holds a control character. -/
  | control
  /-- An unknown escape. -/
  | escape
  /-- An escape by number without four hexadecimal digits. -/
  | numberEscape
  /-- A text holds half of a surrogate pair and has no place for it. -/
  | surrogate
  /-- An integer with more digits than are converted. -/
  | longInteger (digits : Nat)
  /-- Values are nested deeper than the reader can go; the word names the value. -/
  | nesting (word : String)
  deriving DecidableEq, Repr

/-- A fault and how many characters were left at its place. -/
structure Fault where
  /-- What is wrong. -/
  kind : Fault.Kind
  /-- The number of characters from its place to the end. -/
  left : Nat
  deriving DecidableEq, Repr

/-- The most digits of an integer that are converted. -/
def maxDigits : Nat := 4300

/-- The wording for an integer with too many digits. -/
def longIntegerMessage (digits : Nat) : String :=
  s!"Exceeds the limit ({maxDigits} digits) for integer string conversion: value has {digits} " ++
    "digits; use sys.set_int_max_str_digits() to increase the limit"

/-- The wording for values that are nested too deep; what was done with them is given. -/
def nestingMessage (doing : String) : String := s!"maximum recursion depth exceeded while {doing}"

/-- The wording of a fault, without its place. -/
def Fault.Kind.message : Fault.Kind → String
  | .byteOrderMark => "Unexpected UTF-8 BOM (decode using utf-8-sig)"
  | .value => "Expecting value"
  | .name => "Expecting property name enclosed in double quotes"
  | .colon => "Expecting ':' delimiter"
  | .comma => "Expecting ',' delimiter"
  | .extra => "Extra data"
  | .unterminated => "Unterminated string starting at"
  | .control => "Invalid control character at"
  | .escape => "Invalid \\escape"
  | .numberEscape => "Invalid \\uXXXX escape"
  | .surrogate => "Unpaired surrogate escape"
  | .longInteger n => longIntegerMessage n
  | .nesting word => nestingMessage s!"decoding a JSON {word} from a unicode string"

/-- The wording of a fault in a text, with line, column and offset of its place. -/
def Fault.message (fault : Fault) (text : String) : String :=
  match fault.kind with
  | .longInteger n => longIntegerMessage n
  | .nesting word => (Fault.Kind.nesting word).message
  | kind =>
    let offset := text.length - fault.left
    let before := text.toList.take offset
    let line := before.count '\n' + 1
    let column := (before.reverse.takeWhile (· ≠ '\n')).length + 1
    s!"{kind.message}: line {line} column {column} (char {offset})"

namespace Reader

variable {τ : Type} [HasSigns τ] [DecidableEq τ]

/-- The blanks of JSON. -/
def isSpace (c : Char) : Bool := c = ' ' || c = '\t' || c = '\n' || c = '\r'

/-- The text behind its leading blanks. -/
def skipSpace (s : List Char) : List Char := s.dropWhile isSpace

/-- The value of a hexadecimal digit. -/
def hexValue? (c : Char) : Option Nat :=
  if '0' ≤ c ∧ c ≤ '9' then some (c.toNat - 48)
  else if 'a' ≤ c ∧ c ≤ 'f' then some (c.toNat - 87)
  else if 'A' ≤ c ∧ c ≤ 'F' then some (c.toNat - 55)
  else none

/-- The number that four hexadecimal digits write, and what follows; something has to follow. -/
def hexUnit? : List Char → Option (Nat × List Char)
  | a :: b :: c :: d :: next :: rest => do
    let a ← hexValue? a
    let b ← hexValue? b
    let c ← hexValue? c
    let d ← hexValue? d
    return (((a * 16 + b) * 16 + c) * 16 + d, next :: rest)
  | _ => none

/-- Half of a pair of surrogates by its number. -/
def halfOf (unit : Nat) : Sign := .half (Fin.ofNat 0x800 (unit - 0xD800))

/-- The sign behind `\u`, which may take a second escape, and what follows. A first half of a pair
takes a second one if it is there, and stands alone otherwise. -/
def escapedUnit (s : List Char) : Except Fault (Sign × List Char) :=
  match hexUnit? s with
  | none => .error ⟨.numberEscape, s.length + 1⟩
  | some (high, rest) =>
    if high < 0xD800 ∨ 0xE000 ≤ high then .ok (.char (Char.ofNat high), rest)
    else if 0xDC00 ≤ high then .ok (halfOf high, rest)
    else
      match rest with
      | '\\' :: 'u' :: more =>
        match hexUnit? more with
        | none => .error ⟨.numberEscape, more.length + 1⟩
        | some (low, behind) =>
          if 0xDC00 ≤ low ∧ low < 0xE000 then
            .ok (.char (Char.ofNat (0x10000 + (high - 0xD800) * 0x400 + (low - 0xDC00))), behind)
          else .ok (halfOf high, rest)
      | _ => .ok (halfOf high, rest)

/-- The character that a backslash and this letter write. -/
def escaped? (c : Char) : Option Char :=
  if c = '"' ∨ c = '\\' ∨ c = '/' then some c
  else if c = 'b' then some (Char.ofNat 8)
  else if c = 'f' then some (Char.ofNat 12)
  else if c = 'n' then some '\n'
  else if c = 'r' then some '\r'
  else if c = 't' then some '\t'
  else none

/-- The signs of a text up to its closing quote, and what follows. `start` is the number of
characters that were left at the opening quote. -/
def quotedText (start : Nat) : (fuel : Nat) → List Char → Except Fault (List Sign × List Char)
  | 0, _ => .error ⟨.unterminated, start⟩
  | _ + 1, [] => .error ⟨.unterminated, start⟩
  | fuel + 1, c :: rest =>
    if c = '"' then .ok ([], rest)
    else if c = '\\' then
      match rest with
      | [] => .error ⟨.unterminated, start⟩
      | 'u' :: more => do
        let (sign, rest) ← escapedUnit more
        let (signs, rest) ← quotedText start fuel rest
        return (sign :: signs, rest)
      | e :: more =>
        match escaped? e with
        | none => .error ⟨.escape, rest.length + 1⟩
        | some c => do
          let (signs, rest) ← quotedText start fuel more
          return (.char c :: signs, rest)
    else if c.toNat < 0x20 then .error ⟨.control, rest.length + 1⟩
    else do
      let (signs, rest) ← quotedText start fuel rest
      return (.char c :: signs, rest)

/-- The text behind an opening quote, and what follows. -/
def text (s : List Char) : Except Fault (τ × List Char) := do
  let (signs, rest) ← quotedText (s.length + 1) (s.length + 1) s
  match HasSigns.ofSigns? signs with
  | none => throw ⟨.surrogate, s.length + 1⟩
  | some t => return (t, rest)

/-- The digits at the front, and what follows. -/
def digits (s : List Char) : List Char × List Char := s.span Char.isDigit

/-- The number that a row of digits writes in base ten. -/
def natOf (s : List Char) : Nat := s.foldl (fun n c => n * 10 + (c.toNat - 48)) 0

/-- The digits in front of a point, and what follows. A zero in front stands alone. -/
def integerPart (s : List Char) : List Char × List Char :=
  match s with
  | '0' :: rest => (['0'], rest)
  | _ => digits s

/-- The digits of a fraction, if a point and a digit come first. -/
def fraction (s : List Char) : List Char × List Char :=
  match s with
  | '.' :: rest =>
    match digits rest with
    | ([], _) => ([], s)
    | found => found
  | _ => ([], s)

/-- The exponent, if the letter, an optional sign and a digit come first. -/
def exponent (s : List Char) : Option Int × List Char :=
  match s with
  | e :: rest =>
    if e = 'e' ∨ e = 'E' then
      let (negative, rest) :=
        match rest with
        | '-' :: rest => (true, rest)
        | '+' :: rest => (false, rest)
        | rest => (false, rest)
      match digits rest with
      | ([], _) => (none, s)
      | (ds, rest) => (some (if negative then -(natOf ds : Int) else natOf ds), rest)
    else (none, s)
  | [] => (none, s)

/-- The number behind an optional minus sign, and what follows. `left` is the number of
characters left at the start of the whole number. -/
def number (left : Nat) (negative : Bool) (s : List Char) : Except Fault (Json τ × List Char) :=
  let (whole, rest) := integerPart s
  if whole.isEmpty then .error ⟨.value, left⟩
  else
    let (frac, rest) := fraction rest
    let (exp, rest) := exponent rest
    if frac.isEmpty ∧ exp.isNone then
      if maxDigits < whole.length then .error ⟨.longInteger whole.length, left⟩
      else .ok (.int (if negative then -(natOf whole : Int) else natOf whole), rest)
    else
      .ok (.float (.ofDecimal negative (natOf (whole ++ frac)) (exp.getD 0 - frac.length)), rest)

/-- The words that stand for values. -/
def words : List (String × Json τ) :=
  [("null", .null), ("true", .bool true), ("false", .bool false), ("NaN", .float .nan),
    ("Infinity", .float (.infinite false)), ("-Infinity", .float (.infinite true))]

/-- The word at the front, if one stands there, and what follows. -/
def word? (s : List Char) : Option (Json τ × List Char) :=
  words.findSome? fun (name, v) => (Text.dropFront? name.toList s).map fun rest => (v, rest)

/-- The room that is left one level deeper. -/
def enter? : Option Nat → Option (Option Nat)
  | none => some none
  | some 0 => none
  | some (n + 1) => some (some n)

mutual

/-- The value at the front, with room for so many levels, and what follows. -/
def value : (fuel : Nat) → (room : Option Nat) → List Char → Except Fault (Json τ × List Char)
  | 0, _, s => .error ⟨.value, s.length⟩
  | _ + 1, _, [] => .error ⟨.value, 0⟩
  | fuel + 1, room, c :: rest =>
    if c = '"' then do
      let (t, rest) ← text rest
      return (.str t, rest)
    else if c = '\x7b' then
      match enter? room with
      | none => .error ⟨.nesting "object", rest.length + 1⟩
      | some room =>
        match skipSpace rest with
        | '\x7d' :: rest => .ok (.obj [], rest)
        | rest => do
          let (members, rest) ← members fuel room rest
          return (.obj (Table.ofList members), rest)
    else if c = '[' then
      match enter? room with
      | none => .error ⟨.nesting "array", rest.length + 1⟩
      | some room =>
        match skipSpace rest with
        | ']' :: rest => .ok (.arr [], rest)
        | rest => do
          let (items, rest) ← items fuel room rest
          return (.arr items, rest)
    else
      match word? (c :: rest) with
      | some found => .ok found
      | none =>
        if c = '-' then number (rest.length + 1) true rest
        else number (rest.length + 1) false (c :: rest)

/-- The items up to the closing bracket, of which there is one at least, and what follows. -/
def items : (fuel : Nat) → (room : Option Nat) → List Char →
    Except Fault (List (Json τ) × List Char)
  | 0, _, s => .error ⟨.value, s.length⟩
  | fuel + 1, room, s => do
    let (item, rest) ← value fuel room s
    match skipSpace rest with
    | ']' :: rest => return ([item], rest)
    | ',' :: rest =>
      let (more, rest) ← items fuel room (skipSpace rest)
      return (item :: more, rest)
    | rest => throw ⟨.comma, rest.length⟩

/-- The members up to the closing brace, of which there is one at least, and what follows. -/
def members : (fuel : Nat) → (room : Option Nat) → List Char →
    Except Fault (List (τ × Json τ) × List Char)
  | 0, _, s => .error ⟨.value, s.length⟩
  | fuel + 1, room, s =>
    match s with
    | '"' :: rest => do
      let (name, rest) ← text rest
      match skipSpace rest with
      | ':' :: rest =>
        let (v, rest) ← value fuel room (skipSpace rest)
        match skipSpace rest with
        | '\x7d' :: rest => return ([(name, v)], rest)
        | ',' :: rest =>
          let (more, rest) ← members fuel room (skipSpace rest)
          return ((name, v) :: more, rest)
        | rest => throw ⟨.comma, rest.length⟩
      | rest => throw ⟨.colon, rest.length⟩
    | _ => .error ⟨.name, s.length⟩

end

end Reader

variable {τ : Type} [HasSigns τ] [DecidableEq τ]

/-- The value that a list of characters writes, with room for so many levels. -/
def readChars (room : Option Nat) (s : List Char) : Except Fault (Json τ) :=
  if s.head? = some '\ufeff' then .error ⟨.byteOrderMark, s.length⟩
  else do
    let (v, rest) ← Reader.value (s.length + 1) room (Reader.skipSpace s)
    match Reader.skipSpace rest with
    | [] => return v
    | rest => throw ⟨.extra, rest.length⟩

/-- The value that a text writes, with room for so many levels. -/
def readWithin (room : Option Nat) (s : String) : Except Fault (Json τ) := readChars room s.toList

/-- The value that a text writes, with its texts made of characters only. -/
def read (s : String) : Except Fault Json := readWithin none s

end StyleBundle.Json
