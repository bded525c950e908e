import StyleBundle.Yaml.Cursor

/-!
# Dates and times

A date is a year of four digits, a month and a day. A time of day may follow, with a fraction of a
second and the distance of its zone from the zero meridian. Words of the right form may still name
no day or no time.
-/

namespace StyleBundle.Yaml

/-- A time of day. -/
structure TimeOfDay where
  /-- The hour. -/
  hour : Nat
  /-- The minute. -/
  minute : Nat
  /-- The second. -/
  second : Nat
  /-- The millionths of a second. -/
  micro : Nat
  /-- The minutes by which the zone is ahead, if a zone is given. -/
  zone : Option Int
  deriving DecidableEq, Repr

/-- A date, with a time of day perhaps. -/
structure Moment where
  /-- The year. -/
  year : Nat
  /-- The month. -/
  month : Nat
  /-- The day. -/
  day : Nat
  /-- The time of day. -/
  time : Option TimeOfDay
  deriving DecidableEq, Repr

namespace Moment

/-- The number that decimal digits write. -/
def value (digits : List Char) : Nat := digits.foldl (fun n d => n * 10 + (d.toNat - 48)) 0

/-- At most so many digits at the front of a text, at least so many, and what follows. -/
def digits? (least most : Nat) (s : List Char) : Option (List Char × List Char) :=
  let digits := (s.take most).takeWhile Char.isDigit
  if digits.length < least then none else some (digits, s.drop digits.length)

/-- What follows a character at the front of a text. -/
def behind? (c : Char) (s : List Char) : Option (List Char) :=
  if s.head? = some c then some (s.drop 1) else none

/-- The millionths of a second that the digits of a fraction write. -/
def micro (digits : List Char) : Nat :=
  let digits := digits.take 6
  value (digits ++ List.replicate (6 - digits.length) '0')

/-- Whether a character is a blank between the parts of a moment. -/
def isGap (c : Char) : Bool := c = ' ' || c = '\t'

/-- The zone that fills a text: nothing, the letter `Z`, or a signed distance. -/
def zone? (s : List Char) : Option (Option Int) :=
  if s.isEmpty then some none
  else
    match s.dropWhile isGap with
    | ['Z'] => some (some 0)
    | sign :: rest => do
      let ahead ← if sign = '+' then some true else if sign = '-' then some false else none
      let (hours, rest) ← digits? 1 2 rest
      let minutes ←
        match rest with
        | [] => some 0
        | ':' :: rest =>
          match digits? 2 2 rest with
          | some (minutes, []) => some (value minutes)
          | _ => none
        | _ => none
      let distance : Int := value hours * 60 + minutes
      return some (if ahead then distance else -distance)
    | [] => none

/-- The time of day that fills a text. -/
def time? (s : List Char) : Option TimeOfDay := do
  let (hour, s) ← digits? 1 2 s
  let (minute, s) ← digits? 2 2 (← behind? ':' s)
  let (second, s) ← digits? 2 2 (← behind? ':' s)
  let (fraction, s) :=
    match s with
    | '.' :: rest => (rest.takeWhile Char.isDigit, rest.dropWhile Char.isDigit)
    | _ => ([], s)
  let zone ← zone? s
  return ⟨value hour, value minute, value second, micro fraction, zone⟩

/-- What stands between a date and a time of day, taken off. -/
def behindGap? (s : List Char) : Option (List Char) :=
  match s with
  | c :: rest =>
    if c = 'T' ∨ c = 't' then some rest
    else if isGap c then some (s.dropWhile isGap)
    else none
  | [] => none

/-- The moment that a text writes, and whether it is written as plain scalars have it: a date
without a time has two digits for its month and its day. -/
def parse? (s : List Char) : Option (Moment × Bool) := do
  let (year, s) ← digits? 4 4 s
  let (month, s) ← digits? 1 2 (← behind? '-' s)
  let (day, s) ← digits? 1 2 (← behind? '-' s)
  let date : Moment := ⟨value year, value month, value day, none⟩
  if s.isEmpty then return (date, month.length = 2 && day.length = 2)
  else
    let time ← time? (← behindGap? s)
    return ({ date with time }, true)

/-- Whether a year has a day more. -/
def isLeap (year : Nat) : Bool := year % 4 = 0 && (year % 100 ≠ 0 || year % 400 = 0)

/-- The number of days of a month. -/
def daysOf (year month : Nat) : Nat :=
  if month = 2 then (if isLeap year then 29 else 28)
  else if month ∈ [4, 6, 9, 11] then 30
  else 31

/-- A length of time, in minutes, as it is shown: whole days and the seconds that are left. -/
def showDistance (minutes : Int) : String :=
  let days := Int.fdiv minutes 1440
  let seconds := (minutes - days * 1440) * 60
  let parts := (if days = 0 then [] else [s!"days={days}"]) ++
    (if seconds = 0 then [] else [s!"seconds={seconds}"])
  "datetime.timedelta(" ++ ", ".intercalate parts ++ ")"

/-- What is wrong with a date. -/
def dateFault? (m : Moment) : Option String :=
  if m.year = 0 then some s!"year {m.year} is out of range"
  else if m.month < 1 ∨ 12 < m.month then some "month must be in 1..12"
  else if m.day < 1 ∨ daysOf m.year m.month < m.day then some "day is out of range for month"
  else none

/-- What is wrong with a time of day. -/
def timeFault? (t : TimeOfDay) : Option String :=
  if 23 < t.hour then some "hour must be in 0..23"
  else if 59 < t.minute then some "minute must be in 0..59"
  else if 59 < t.second then some "second must be in 0..59"
  else none

/-- What is wrong with a zone: it has to be less than a day away. -/
def zoneFault? (minutes : Int) : Option String :=
  if 1440 ≤ minutes.natAbs then
    some ("offset must be a timedelta strictly between -timedelta(hours=24) and " ++
      s!"timedelta(hours=24), not {showDistance minutes}.")
  else none

/-- What is wrong with a moment. -/
def fault? (m : Moment) : Option String :=
  match m.time with
  | none => m.dateFault?
  | some t => (t.zone.bind zoneFault?).or (m.dateFault?.or (timeFault? t))

/-- A zone as it is shown. -/
def showZone (minutes : Int) : String :=
  if minutes = 0 then "datetime.timezone.utc" else s!"datetime.timezone({showDistance minutes})"

/-- A moment as it is shown. -/
def shown (m : Moment) : String :=
  let numbers (ns : List Nat) : String := ", ".intercalate (ns.map toString)
  match m.time with
  | none => s!"datetime.date({numbers [m.year, m.month, m.day]})"
  | some t =>
    let seconds :=
      if t.micro ≠ 0 then [t.second, t.micro] else if t.second ≠ 0 then [t.second] else []
    let zone :=
      match t.zone with
      | some minutes => s!", tzinfo={showZone minutes}"
      | none => ""
    s!"datetime.datetime({numbers ([m.year, m.month, m.day, t.hour, t.minute] ++ seconds)}{zone})"

end Moment

end StyleBundle.Yaml
