/-!
# Base 64

Compiled text may carry its source map as base 64. Decoding is lenient: characters outside the
alphabet are passed over, and so is padding that completes no group. Padding that does complete a
group ends the data, whatever stands behind it.
-/

namespace StyleBundle.Text.Base64

/-- Why a text is no base 64. -/
inductive Fault
  /-- The last group holds one digit only; the number counts the digits up to there. -/
  | loneDigit (digits : Nat)
  /-- The last group is neither full nor padded. -/
  | badPadding
  deriving DecidableEq, Repr

/-- The wording of a fault. -/
def Fault.message : Fault → String
  | .loneDigit n =>
    s!"Invalid base64-encoded string: number of data characters ({n}) cannot be 1 more " ++
      "than a multiple of 4"
  | .badPadding => "Incorrect padding"

/-- The digit with a value below 64. -/
def digit (n : Nat) : Char :=
  if n < 26 then Char.ofNat (65 + n)
  else if n < 52 then Char.ofNat (71 + n)
  else if n < 62 then Char.ofNat (n - 4)
  else if n = 62 then '+'
  else '/'

/-- The value of a digit. -/
def value? (c : Char) : Option Nat :=
  if 'A' ≤ c ∧ c ≤ 'Z' then some (c.toNat - 65)
  else if 'a' ≤ c ∧ c ≤ 'z' then some (c.toNat - 71)
  else if '0' ≤ c ∧ c ≤ '9' then some (c.toNat + 4)
  else if c = '+' then some 62
  else if c = '/' then some 63
  else none

/-- The digits that write a row of bytes, padded to whole groups of four. -/
def encode : List UInt8 → List Char
  | [] => []
  | [a] => [digit (a.toNat / 4), digit (a.toNat % 4 * 16), '=', '=']
  | [a, b] =>
    [digit (a.toNat / 4), digit (a.toNat % 4 * 16 + b.toNat / 16), digit (b.toNat % 16 * 4), '=']
  | a :: b :: c :: rest =>
    digit (a.toNat / 4) :: digit (a.toNat % 4 * 16 + b.toNat / 16) ::
      digit (b.toNat % 16 * 4 + c.toNat / 64) :: digit (c.toNat % 64) :: encode rest

/-- The digits of the group that is being read. -/
inductive Group
  /-- No digit yet. -/
  | empty
  /-- One digit. -/
  | one (a : Nat)
  /-- Two digits. -/
  | two (a b : Nat)
  /-- Three digits. -/
  | three (a b c : Nat)

/-- The bytes of a group of four digits. -/
def bytes (a b c d : Nat) : List UInt8 :=
  [(a * 4 + b / 16).toUInt8, (b % 16 * 16 + c / 4).toUInt8, (c % 4 * 64 + d).toUInt8]

/-- Decodes behind `whole` finished groups, with `pads` padding characters since the last digit. -/
def decodeFrom (whole : Nat) (group : Group) (pads : Nat) : List Char → Except Fault (List UInt8)
  | [] =>
    match group with
    | .empty => .ok []
    | .one _ => .error (.loneDigit (whole * 4 + 1))
    | .two .. | .three .. => .error .badPadding
  | '=' :: rest =>
    match group with
    | .empty | .one _ => decodeFrom whole group pads rest
    | .two a b =>
      if pads = 0 then decodeFrom whole group 1 rest else .ok ((bytes a b 0 0).take 1)
    | .three a b c => .ok ((bytes a b c 0).take 2)
  | c :: rest =>
    match value? c, group with
    | none, _ => decodeFrom whole group pads rest
    | some v, .empty => decodeFrom whole (.one v) 0 rest
    | some v, .one a => decodeFrom whole (.two a v) 0 rest
    | some v, .two a b => decodeFrom whole (.three a b v) 0 rest
    | some v, .three a b c =>
      match decodeFrom (whole + 1) .empty 0 rest with
      | .ok more => .ok (bytes a b c v ++ more)
      | .error fault => .error fault

/-- The bytes that a text of base 64 writes. -/
def decode (s : List Char) : Except Fault (List UInt8) := decodeFrom 0 .empty 0 s

end StyleBundle.Text.Base64
