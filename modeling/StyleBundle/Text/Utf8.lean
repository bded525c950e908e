/-!
# UTF-8

Stylesheets, settings and cache entries are stored as UTF-8. Decoding is strict: the first
sequence that encodes no character is refused, and the fault names its bytes and says whether
the lead byte, a continuation byte or the end of the data is to blame.
-/

namespace StyleBundle.Text.Utf8

/-- Why a byte sequence encodes no character. -/
inductive Reason
  /-- No character starts with this byte. -/
  | badStart
  /-- A byte that should continue a character does not. -/
  | badContinuation
  /-- The data ends inside a character. -/
  | cutShort
  deriving DecidableEq, Repr

/-- The wording of a reason. -/
def Reason.message : Reason → String
  | .badStart => "invalid start byte"
  | .badContinuation => "invalid continuation byte"
  | .cutShort => "unexpected end of data"

/-- A refusal to decode. -/
structure Fault where
  /-- The first refused byte. -/
  byte : UInt8
  /-- Where that byte stands. -/
  start : Nat
  /-- How many bytes are refused together. -/
  count : Nat
  /-- What is wrong with them. -/
  reason : Reason
  deriving DecidableEq, Repr

/-- Two lower-case hexadecimal digits. -/
def hexByte (b : UInt8) : String :=
  String.ofList [Nat.digitChar (b.toNat / 16), Nat.digitChar (b.toNat % 16)]

/-- The wording of a fault. A single byte is shown, a longer run is only located. -/
def Fault.message (f : Fault) : String :=
  if f.count = 1 then
    s!"'utf-8' codec can't decode byte 0x{hexByte f.byte} in position {f.start}: " ++
      f.reason.message
  else
    s!"'utf-8' codec can't decode bytes in position {f.start}-{f.start + f.count - 1}: " ++
      f.reason.message

/-- The bytes of one character. -/
def encodeChar (c : Char) : List UInt8 :=
  let n := c.toNat
  if n < 0x80 then [n.toUInt8]
  else if n < 0x800 then [(0xC0 + n / 64).toUInt8, (0x80 + n % 64).toUInt8]
  else if n < 0x10000 then
    [(0xE0 + n / 4096).toUInt8, (0x80 + n / 64 % 64).toUInt8, (0x80 + n % 64).toUInt8]
  else
    [(0xF0 + n / 262144).toUInt8, (0x80 + n / 4096 % 64).toUInt8, (0x80 + n / 64 % 64).toUInt8,
      (0x80 + n % 64).toUInt8]

/-- The bytes of a text. -/
def encode (s : List Char) : List UInt8 := s.flatMap encodeChar

/-- The six low bits of a continuation byte. -/
def tail? (b : UInt8) : Option Nat :=
  if 0x80 ≤ b.toNat ∧ b.toNat < 0xC0 then some (b.toNat - 0x80) else none

/-- The least and greatest second byte that may follow a lead byte. Four leads allow less than
every continuation, which keeps out overlong forms, surrogates and numbers past the last
character. -/
def secondRange (lead : Nat) : Nat × Nat :=
  if lead = 0xE0 then (0xA0, 0xBF)
  else if lead = 0xED then (0x80, 0x9F)
  else if lead = 0xF0 then (0x90, 0xBF)
  else if lead = 0xF4 then (0x80, 0x8F)
  else (0x80, 0xBF)

/-- The six low bits of the second byte of a character, where `lead` allows it. -/
def second? (lead : Nat) (b : UInt8) : Option Nat :=
  let (low, high) := secondRange lead
  if low ≤ b.toNat ∧ b.toNat ≤ high then some (b.toNat - 0x80) else none

/-- What a step of decoding finds at the front of the data. -/
inductive Step
  /-- A character and the bytes behind it. -/
  | char (c : Char) (rest : List UInt8)
  /-- So many bytes that encode nothing. -/
  | refuse (count : Nat) (reason : Reason)

/-- The character whose lead byte is `lead`, read from the bytes behind the lead. -/
def step (lead : UInt8) (rest : List UInt8) : Step :=
  let n := lead.toNat
  if n < 0x80 then .char (Char.ofNat n) rest
  else if n < 0xC2 then .refuse 1 .badStart
  else if n < 0xE0 then
    match rest with
    | [] => .refuse 1 .cutShort
    | b :: rest =>
      match tail? b with
      | none => .refuse 1 .badContinuation
      | some x => .char (Char.ofNat ((n - 0xC0) * 64 + x)) rest
  else if n < 0xF0 then
    match rest with
    | [] => .refuse 1 .cutShort
    | b :: rest =>
      match second? n b, rest with
      | none, _ => .refuse 1 .badContinuation
      | some _, [] => .refuse 2 .cutShort
      | some x, c :: rest =>
        match tail? c with
        | none => .refuse 2 .badContinuation
        | some y => .char (Char.ofNat (((n - 0xE0) * 64 + x) * 64 + y)) rest
  else if n < 0xF5 then
    match rest with
    | [] => .refuse 1 .cutShort
    | b :: rest =>
      match second? n b, rest with
      | none, _ => .refuse 1 .badContinuation
      | some _, [] => .refuse 2 .cutShort
      | some x, c :: rest =>
        match tail? c, rest with
        | none, _ => .refuse 2 .badContinuation
        | some _, [] => .refuse 3 .cutShort
        | some y, d :: rest =>
          match tail? d with
          | none => .refuse 3 .badContinuation
          | some z => .char (Char.ofNat ((((n - 0xF0) * 64 + x) * 64 + y) * 64 + z)) rest
  else .refuse 1 .badStart

/-- A character uses up its lead byte at least. -/
theorem length_lt_of_step {lead : UInt8} {rest after : List UInt8} {c : Char}
    (h : step lead rest = .char c after) : after.length < (lead :: rest).length := by
  unfold step at h
  grind

/-- The text that the bytes from position `start` on encode. -/
def decodeFrom (start : Nat) : List UInt8 → Except Fault (List Char)
  | [] => .ok []
  | lead :: rest =>
    match _h : step lead rest with
    | .refuse count reason => .error ⟨lead, start, count, reason⟩
    | .char c after =>
      match decodeFrom (start + ((lead :: rest).length - after.length)) after with
      | .ok s => .ok (c :: s)
      | .error fault => .error fault
termination_by bytes => bytes.length
decreasing_by exact length_lt_of_step _h

/-- The text that the bytes encode. -/
def decode (bytes : List UInt8) : Except Fault (List Char) := decodeFrom 0 bytes

end StyleBundle.Text.Utf8
