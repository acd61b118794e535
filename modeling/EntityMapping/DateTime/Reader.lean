import EntityMapping.DateTime
import EntityMapping.Double
import EntityMapping.Text.Blank

/-! # Reading moments

The interchange form `2024-01-02T03:04:05.25+02:00` must carry an offset and all digits of its numbers.
The forms that databases keep may leave out the offset, which then is universal time, the seconds,
and zeros in front of numbers.
-/

namespace EntityMapping.DateTime

/-- `2024-01-02` in front. -/
def readDate? (s : List Char) : Option (Date × List Char) := do
  let (year, s) ← Text.takeDigits? 4 s
  let s ← Text.expect? '-' s
  let (month, s) ← Text.takeDigits? 2 s
  let s ← Text.expect? '-' s
  let (day, s) ← Text.takeDigits? 2 s
  let date : Date := ⟨year, month, day⟩
  if date.isValid then some (date, s) else none

/-- A second of a day and nanoseconds, of which a leap second has more than 10⁹. -/
structure Clock where
  second : Nat
  nanos : Nat

/-- `.25` in front: the nanoseconds of the first nine digits. -/
def readFraction? : List Char → Option (Nat × List Char)
  | '.' :: s =>
    let (digits, rest) := Text.spanDigits s
    let kept := digits.take 9
    (Text.nat? kept).map fun n => (n * tenTo (9 - kept.length), rest)
  | s => some (0, s)

/-- `:05.25` in front. -/
def readSeconds? (s : List Char) : Option (Nat × Nat × List Char) := do
  let s ← Text.expect? ':' s
  let (second, s) ← Text.takeDigits? 2 s
  let (nanos, s) ← readFraction? s
  if second < 60 then some (second, nanos, s)
  else if second = 60 then some (59, nanos + 1000000000, s)
  else none

/-- `03:04` in front. -/
def readMinutes? (s : List Char) : Option (Nat × List Char) := do
  let (hour, s) ← Text.takeDigits? 2 s
  let s ← Text.expect? ':' s
  let (minute, s) ← Text.takeDigits? 2 s
  if hour < 24 ∧ minute < 60 then some (3600 * hour + 60 * minute, s) else none

/-- `03:04:05.25` in front. -/
def readClock? (s : List Char) : Option (Clock × List Char) := do
  let (base, s) ← readMinutes? s
  let (second, nanos, s) ← readSeconds? s
  some (⟨base + second, nanos⟩, s)

def signFactor? (c : Char) : Option Int :=
  if c = '+' then some 1 else if c = '-' ∨ c = '\u2212' then some (-1) else none

/-- `+02:00` or `Z`, and nothing behind it. The offset is less than a day. -/
def readOffset? : List Char → Option Int
  | ['Z'] | ['z'] => some 0
  | sign :: s => do
    let factor ← signFactor? sign
    let (hours, s) ← Text.takeDigits? 2 s
    let s ← Text.expect? ':' s
    let (minutes, s) ← Text.takeDigits? 2 s
    if s.isEmpty ∧ minutes < 60 ∧ hours < 24 then some (factor * (3600 * hours + 60 * minutes))
    else none
  | [] => none

/-- The interchange form. Date and time may also be joined by `t` or a space. -/
def readInterchange? (s : List Char) : Option DateTime := do
  let (date, s) ← readDate? s
  let s ← match s with
    | 'T' :: s | 't' :: s | ' ' :: s => some s
    | _ => none
  let (clock, s) ← readClock? s
  let offset ← readOffset? s
  some (ofLocal date clock.second clock.nanos offset)

def parse? (s : String) : Option DateTime := readInterchange? s.toList

/-! ## Stored forms -/

def yearLimits : Int × Int := (-262143, 262142)

/-- A number of one digit up to `width` in front, behind blanks. -/
def readShort? (width : Nat) (s : List Char) : Option (Nat × List Char) :=
  let s := Text.skipBlanks s
  let digits := (s.take width).takeWhile Char.isDigit
  (Text.nat? digits).map fun n => (n, s.drop digits.length)

/-- A year in front, behind blanks: up to four digits, or any number of them behind a sign. -/
def readYear? (s : List Char) : Option (Int × List Char) :=
  match Text.skipBlanks s with
  | '-' :: s => (readLong? s).map fun (n, s) => (-(n : Int), s)
  | '+' :: s => (readLong? s).map fun (n, s) => ((n : Int), s)
  | s => (readShort? 4 s).map fun (n, s) => ((n : Int), s)
where
  readLong? (s : List Char) : Option (Nat × List Char) :=
    let (digits, rest) := Text.spanDigits s
    (Text.nat? digits).map fun n => (n, rest)

/-- `2024-1-2` in front. -/
def readStoredDate? (s : List Char) : Option (Date × List Char) := do
  let (year, s) ← readYear? s
  let s ← Text.expect? '-' s
  let (month, s) ← readShort? 2 s
  let s ← Text.expect? '-' s
  let (day, s) ← readShort? 2 s
  let date : Date := ⟨year, month, day⟩
  if date.isValid ∧ yearLimits.1 ≤ year ∧ year ≤ yearLimits.2 then some (date, s) else none

/-- `:5.25` in front, or nothing. A sixtieth second is a leap second. -/
def readStoredSeconds? (s : List Char) : Option (Nat × Nat × List Char) :=
  match s with
  | ':' :: s => do
    let (second, s) ← readShort? 2 s
    let (nanos, s) ← readFraction? s
    if second < 60 then some (second, nanos, s)
    else if second = 60 then some (59, nanos + 1000000000, s)
    else none
  | s => some (0, 0, s)

/-- `3:4:5.25` in front, with or without seconds. -/
def readStoredClock? (s : List Char) : Option (Clock × List Char) := do
  let (hour, s) ← readShort? 2 s
  let s ← Text.expect? ':' s
  let (minute, s) ← readShort? 2 s
  let (second, nanos, s) ← readStoredSeconds? s
  if hour < 24 ∧ minute < 60 then some (⟨3600 * hour + 60 * minute + second, nanos⟩, s) else none

/-- `+02:00`, `+0200` or `+02 00` behind blanks, `Z`, or nothing, and nothing behind it: the seconds
east of universal time. -/
def readStoredOffset? (s : List Char) : Option Int :=
  if s = [] ∨ s = ['Z'] then some 0
  else
    match Text.skipBlanks s with
    | sign :: s => do
      let factor ← signFactor? sign
      let (hours, s) ← Text.takeDigits? 2 s
      let (minutes, s) ← Text.takeDigits? 2 (s.dropWhile fun c => c = ':' || Text.isBlank c)
      if s.isEmpty ∧ minutes < 60 then some (factor * (3600 * hours + 60 * minutes)) else none
    | [] => none

/-- The first and the last second of the years that can be told. -/
def secondLimits : Int × Int :=
  (Date.toDays ⟨yearLimits.1, 1, 1⟩ * 86400, Date.toDays ⟨yearLimits.2 + 1, 1, 1⟩ * 86400 - 1)

def isTellable (seconds : Int) : Bool := secondLimits.1 ≤ seconds && seconds ≤ secondLimits.2

/-- An offset of a day or more, and one that leads out of the years that can be told, does not
count. -/
def ofStored (date : Date) (clock : Clock) (offset : Int) : DateTime :=
  let t := ofLocal date clock.second clock.nanos offset
  if offset.natAbs < 86400 ∧ isTellable t.seconds then t else ofLocal date clock.second clock.nanos 0

/-- A form in which databases keep moments. Date and time stand apart by any blanks or a `T`. -/
def readLenient? (s : List Char) : Option DateTime := do
  let (date, s) ← readStoredDate? s
  let s := match s with
    | 'T' :: s => s
    | s => Text.skipBlanks s
  let (clock, s) ← readStoredClock? s
  let offset ← readStoredOffset? s
  some (ofStored date clock offset)

/-- The interchange form or one that databases keep, told in universal time. -/
def readStored? (s : List Char) : Option DateTime :=
  ((readInterchange? s).orElse fun _ => readLenient? s).map inUniversalTime

/-- A number of seconds since 1970, if the year can be told. -/
def ofSeconds? (n : Int) : Option DateTime := if isTellable n then some (ofEpoch n 0) else none

/-- A number of days since noon of the first day of the Julian count, if the year can be told. The part
of a second counts forward, also before 1970. -/
def ofJulianDay? (x : Double) : Option DateTime :=
  if !x.isFinite then none
  else
    let epoch := Double.ofFraction false 4881175 2
    let seconds := (x.sub epoch).mul (Double.ofNat 86400)
    let whole := seconds.numerator.tdiv seconds.denominator
    let part := Double.ofRatio (seconds.numerator - whole * seconds.denominator) seconds.denominator
    let nanos := part.mul (Double.ofNat 1000000000)
    (ofSeconds? whole).map fun t =>
      { t with nanos := nanos.numerator.natAbs / nanos.denominator }

end EntityMapping.DateTime
