/-!
# Binary floating-point numbers

Numbers with a fraction, as they stand in source maps and settings, are binary numbers of 53
bits. A finite one is `mantissa * 2 ^ exponent`, held exactly, so that reading, rounding and
printing are arithmetic on natural numbers.

Reading a decimal takes the nearest binary number, a tie going to the even mantissa. Printing
writes the fewest decimal digits that read back as the same number, and of those the nearest.
-/

namespace StyleBundle.Number

/-- A binary number of 53 bits, an infinity, or no number. -/
inductive Binary64
  /-- `mantissa * 2 ^ exponent`, negated if `negative`; a zero has a sign too. -/
  | finite (negative : Bool) (mantissa : Nat) (exponent : Int)
  /-- An infinity. -/
  | infinite (negative : Bool)
  /-- Not a number. -/
  | nan
  deriving DecidableEq, Repr

/-- The powers of two. -/
def twoTo (n : Nat) : Nat := Nat.pow 2 n

/-- The powers of ten. -/
def tenTo (n : Nat) : Nat := Nat.pow 10 n

/-- The quotient rounded to the nearest integer, a half going to the even one. -/
def roundDiv (num den : Nat) : Nat :=
  let q := num / den
  let r := num % den
  if 2 * r < den then q
  else if den < 2 * r then q + 1
  else q + q % 2

/-- The number of binary digits. -/
def bitLength (n : Nat) : Nat := if n = 0 then 0 else n.log2 + 1

/-- The number rounded to 53 significant bits, a tie going to the even mantissa. -/
def round53 (n : Nat) : Nat :=
  let spare := bitLength n - 53
  roundDiv n (twoTo spare) * twoTo spare

namespace Binary64

/-- The least exponent. -/
def minExponent : Int := -1074

/-- The greatest exponent. -/
def maxExponent : Int := 971

/-- The binary number nearest to a positive quotient. -/
def ofQuotient (negative : Bool) (num den : Nat) : Binary64 :=
  if num = 0 then .finite negative 0 0
  else
    let guess : Int := (bitLength num : Int) - bitLength den - 53
    let scaled (e : Int) : Nat × Nat :=
      if e < 0 then (num * twoTo e.natAbs, den) else (num, den * twoTo e.natAbs)
    let wide := let (n, d) := scaled guess; decide (d * twoTo 53 ≤ n)
    let exponent := max minExponent (if wide then guess + 1 else guess)
    let (n, d) := scaled exponent
    let m := roundDiv n d
    let (m, exponent) := if m = twoTo 53 then (twoTo 52, exponent + 1) else (m, exponent)
    if exponent > maxExponent then .infinite negative else .finite negative m exponent

/-- The binary number nearest to `digits * 10 ^ exponent`. Exponents that leave the range whatever
the digits are not expanded. -/
def ofDecimal (negative : Bool) (digits : Nat) (exponent : Int) : Binary64 :=
  let size : Int := (Nat.toDigits 10 digits).length + exponent
  if digits = 0 then .finite negative 0 0
  else if size > 310 then .infinite negative
  else if size < -330 then .finite negative 0 0
  else if exponent < 0 then ofQuotient negative digits (tenTo exponent.natAbs)
  else ofQuotient negative (digits * tenTo exponent.natAbs) 1

/-- The integer that a number without a fraction is. -/
def toInt? : Binary64 → Option Int
  | .finite negative m e =>
    let whole : Option Nat :=
      if 0 ≤ e then some (m * twoTo e.natAbs)
      else if m % twoTo e.natAbs = 0 then some (m / twoTo e.natAbs)
      else none
    whole.map fun n => if negative then -(n : Int) else n
  | _ => none

/-! ## Shortest decimal text -/

/-- The value and the two ends of the interval of reals that round to it, all over one
denominator, and whether the ends belong to the interval. -/
structure Span where
  /-- The value. -/
  value : Nat
  /-- The lower end. -/
  low : Nat
  /-- The upper end. -/
  high : Nat
  /-- The common denominator. -/
  den : Nat
  /-- Whether the ends round to the value: they do when its mantissa is even. -/
  closed : Bool

/-- The span of a positive number. Below a power of two the gap is half as wide. -/
def span (m : Nat) (e : Int) : Span :=
  let narrow := m = twoTo 52 ∧ minExponent < e
  let value := 4 * m
  let low := if narrow then value - 1 else value - 2
  let scale := twoTo e.natAbs
  if 0 ≤ e then ⟨value * scale, low * scale, (value + 2) * scale, 4, m % 2 = 0⟩
  else ⟨value, low, value + 2, 4 * scale, m % 2 = 0⟩

/-- Whether a quotient rounds to the value of the span. -/
def Span.holds (s : Span) (num den : Nat) : Bool :=
  if s.closed then s.low * den ≤ num * s.den && num * s.den ≤ s.high * den
  else s.low * den < num * s.den && num * s.den < s.high * den

/-- The number of digits before the decimal point, which is zero or negative for a small value. -/
def Span.magnitude (s : Span) : Int :=
  if s.den ≤ s.value then (Nat.toDigits 10 (s.value / s.den)).length
  else 1 - (Nat.toDigits 10 ((s.den + s.value - 1) / s.value)).length +
    (if s.value * tenTo ((Nat.toDigits 10 ((s.den + s.value - 1) / s.value)).length - 1) ≥ s.den
      then 1 else 0)

/-- The point of the decimal grid `10 ^ unit` next to the value that rounds to it, if one does;
of two the nearer, and of two equally near the even one. -/
def Span.gridPoint? (s : Span) (unit : Int) : Option Nat :=
  let (num, den) :=
    if unit < 0 then (s.value * tenTo unit.natAbs, s.den) else (s.value, s.den * tenTo unit.natAbs)
  let point (k : Nat) : Nat × Nat :=
    if unit < 0 then (k, tenTo unit.natAbs) else (k * tenTo unit.natAbs, 1)
  let fits (k : Nat) : Bool := let (n, d) := point k; s.holds n d
  let below := num / den
  let nearest := roundDiv num den
  if fits nearest then some nearest
  else if fits below then some below
  else if fits (below + 1) then some (below + 1)
  else none

/-- The first grid, from coarse to fine, with a point that rounds to the value. -/
def Span.shortest (s : Span) (magnitude : Int) : (tries : Nat) → (places : Nat) → Nat × Int
  | 0, places => ((s.gridPoint? (magnitude - places)).getD 0, magnitude - places)
  | tries + 1, places =>
    match s.gridPoint? (magnitude - places) with
    | some k => (k, magnitude - places)
    | none => s.shortest magnitude tries (places + 1)

/-- The digits without trailing zeros, and how many were dropped. -/
def dropZeros (digits : List Char) : List Char :=
  (digits.reverse.dropWhile (· = '0')).reverse

/-- The decimal digits of a positive number, and where the decimal point stands among them: the
value is `0.d₁d₂…` times ten to that power. -/
def decimal (m : Nat) (e : Int) : List Char × Int :=
  let s := span m e
  let (k, unit) := s.shortest s.magnitude 16 1
  let digits := Nat.toDigits 10 k
  (dropZeros digits, digits.length + unit)

/-- The layout of a number in text: positional from one ten-thousandth up to below ten to the
sixteenth, always with a fraction, and otherwise one digit, a point and a signed exponent of two
digits at least. -/
def layout (digits : List Char) (point : Int) : List Char :=
  if -4 < point ∧ point ≤ 16 then
    if point ≤ 0 then '0' :: '.' :: List.replicate point.natAbs '0' ++ digits
    else
      let n := point.natAbs
      let whole := digits.take n ++ List.replicate (n - digits.length) '0'
      let fraction := digits.drop n
      whole ++ '.' :: (if fraction.isEmpty then ['0'] else fraction)
  else
    let exponent := point - 1
    let power := Nat.toDigits 10 exponent.natAbs
    digits.take 1 ++ (if digits.length = 1 then [] else '.' :: digits.drop 1) ++
      'e' :: (if exponent < 0 then '-' else '+') :: List.replicate (2 - power.length) '0' ++ power

/-- The text of a number, with the given words for the infinities and for no number. -/
def text (infinity noNumber : String) : Binary64 → String
  | .nan => noNumber
  | .infinite negative => (if negative then "-" else "") ++ infinity
  | .finite negative m e =>
    let body :=
      if m = 0 then "0.0"
      else
        let (digits, point) := decimal m e
        String.ofList (layout digits point)
    (if negative then "-" else "") ++ body

end Binary64

end StyleBundle.Number
