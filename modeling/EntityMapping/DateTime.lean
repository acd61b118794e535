import EntityMapping.Text.Digits

/-! # Moments with an offset

A moment is a number of seconds since the start of 1970 in universal time, nanoseconds, and the offset
at which it is told. A leap second is the second before it with more than a thousand million
nanoseconds. Dates follow the Gregorian calendar in both directions.
-/

namespace EntityMapping

structure DateTime where
  seconds : Int
  nanos : Nat
  /-- Seconds east of universal time. -/
  offset : Int
deriving DecidableEq, Repr, Inhabited

structure Date where
  year : Int
  month : Nat
  day : Nat
deriving DecidableEq, Repr

namespace Date

def isLeapYear (y : Int) : Bool := y % 4 == 0 && (y % 100 != 0 || y % 400 == 0)

def daysInMonth (y : Int) (m : Nat) : Nat :=
  if m = 2 then (if isLeapYear y then 29 else 28)
  else if m = 4 ∨ m = 6 ∨ m = 9 ∨ m = 11 then 30
  else 31

def isValid (d : Date) : Bool :=
  1 ≤ d.month && d.month ≤ 12 && 1 ≤ d.day && d.day ≤ daysInMonth d.year d.month

/-- The days from the first of January 1970. The year is counted from March, so that the leap day
comes last, and in cycles of four hundred years. -/
def toDays (d : Date) : Int :=
  let y := if d.month ≤ 2 then d.year - 1 else d.year
  let cycle := y / 400
  let yearOfCycle := y % 400
  let dayOfYear : Int := (153 * ((d.month + 9) % 12) + 2) / 5 + d.day - 1
  cycle * 146097 + (yearOfCycle * 365 + yearOfCycle / 4 - yearOfCycle / 100 + dayOfYear) - 719468

/-- The date that lies `n` days after the first of January 1970. -/
def ofDays (n : Int) : Date :=
  let z := n + 719468
  let cycle := z / 146097
  let dayOfCycle := z % 146097
  let yearOfCycle :=
    (dayOfCycle - dayOfCycle / 1460 + dayOfCycle / 36524 - dayOfCycle / 146096) / 365
  let dayOfYear := dayOfCycle - (365 * yearOfCycle + yearOfCycle / 4 - yearOfCycle / 100)
  let m := (5 * dayOfYear + 2) / 153
  let day := dayOfYear - (153 * m + 2) / 5 + 1
  let month := if m < 10 then m + 3 else m - 9
  let year := yearOfCycle + cycle * 400
  ⟨if month ≤ 2 then year + 1 else year, month.toNat, day.toNat⟩

end Date

namespace DateTime

/-- Equality of instants. -/
def equal (a b : DateTime) : Bool := a.seconds == b.seconds && a.nanos == b.nanos

def inUniversalTime (t : DateTime) : DateTime := { t with offset := 0 }

def ofEpoch (seconds : Int) (nanos : Nat) : DateTime := ⟨seconds, nanos, 0⟩

/-- The moment that a clock with the given offset shows. -/
def ofLocal (date : Date) (secondOfDay nanos : Nat) (offset : Int) : DateTime :=
  ⟨date.toDays * 86400 + secondOfDay - offset, nanos, offset⟩

def two (n : Nat) : List Char := Text.paddedDigits 2 n

/-- Four digits, and a sign for years outside of them. -/
def yearText (y : Int) : List Char :=
  if 0 ≤ y ∧ y ≤ 9999 then Text.paddedDigits 4 y.toNat
  else (if y < 0 then '-' else '+') :: Text.paddedDigits 4 y.natAbs

/-- None, three, six or nine decimals, as few as lose nothing. -/
def fractionText (nanos : Nat) : List Char :=
  if nanos = 0 then []
  else if nanos % 1000000 = 0 then '.' :: Text.paddedDigits 3 (nanos / 1000000)
  else if nanos % 1000 = 0 then '.' :: Text.paddedDigits 6 (nanos / 1000)
  else '.' :: Text.paddedDigits 9 nanos

def offsetText (offset : Int) : List Char :=
  let minutes := offset.natAbs / 60
  (if offset < 0 then '-' else '+') :: two (minutes / 60) ++ ':' :: two (minutes % 60)

/-- `2024-01-02T03:04:05.250+02:00`, as the clock with the moment's offset shows it. -/
def text (t : DateTime) : String :=
  let shown := t.seconds + t.offset
  let date := Date.ofDays (shown / 86400)
  let second := (shown % 86400).toNat
  let leap := t.nanos / 1000000000
  String.ofList (yearText date.year ++ '-' :: two date.month ++ '-' :: two date.day ++
    'T' :: two (second / 3600) ++ ':' :: two (second / 60 % 60) ++ ':' :: two (second % 60 + leap) ++
    fractionText (t.nanos % 1000000000) ++ offsetText t.offset)

end DateTime

end EntityMapping
