import StyleBundle.Number.Binary64

/-!
# Modification times

The disk counts nanoseconds, but times are compared as seconds in a binary floating-point number,
so two stamps closer than that number's resolution are equal. A stamp is that number, held exactly
as a multiple of `2 ^ -82` seconds, which is the grid on which a billionth of a second lies when it
is rounded to 53 bits.
-/

namespace StyleBundle

/-- A modification time. -/
structure Stamp where
  /-- The time in units of `2 ^ -82` seconds. -/
  units : Nat
  deriving DecidableEq, Repr

namespace Stamp

/-- Whether a time is later than another. -/
def isAfter (s t : Stamp) : Bool := t.units < s.units

/-- The units of one second. -/
def second : Nat := Number.twoTo 82

/-- The nanoseconds of one second. -/
def billion : Nat := 1000000000

/-- A billionth of a second, rounded to 53 bits, in units. -/
def nanosecond : Nat := 4835703278458517

/-- The stamp of a number of nanoseconds: whole seconds plus the rounded rest, rounded. -/
def ofNanoseconds (n : Nat) : Stamp :=
  ⟨Number.round53 (n / billion * second + Number.round53 (n % billion * nanosecond))⟩

/-- The nanoseconds of a number of seconds `mantissa * 2 ^ exponent`: the fraction is multiplied
in 53 bits and cut off. -/
def nanosecondsOfSeconds (mantissa : Nat) (exponent : Int) : Nat :=
  if 0 ≤ exponent then mantissa * Number.twoTo exponent.natAbs * billion
  else
    let scale := Number.twoTo exponent.natAbs
    mantissa / scale * billion + Number.round53 (mantissa % scale * billion) / scale

/-- The time one step later. A step is about a millisecond, which every comparison sees. -/
def next (s : Stamp) : Stamp := ⟨s.units + Number.twoTo 72⟩

/-- The next time is later. -/
theorem isAfter_next (s : Stamp) : s.next.isAfter s = true := by
  simp [isAfter, next, Number.twoTo]

end Stamp

end StyleBundle
