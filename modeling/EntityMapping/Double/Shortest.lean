import EntityMapping.Double
import EntityMapping.Text.Digits

/-! # The shortest decimal that reads back

The digits of a finite number are the fewest that lie nearer to it than to any other number, and of
those the nearest. They are found grid by grid: with `n` digits only the two decimals around the
number can qualify. Which of these is taken when both are equally near is up to the written form.
-/

namespace EntityMapping.Double

/-- A decimal number `digits * 10 ^ exponent`. -/
structure Decimals where
  digits : Nat
  exponent : Int
deriving DecidableEq, Repr

/-- Which of two decimals a number half-way between them takes. -/
inductive Tie where
  | up
  | even
deriving DecidableEq, Repr

/-- The half-way number above `digits` takes the lower decimal. -/
def Tie.goesDown (tie : Tie) (digits : Nat) : Bool :=
  match tie with
  | .up => false
  | .even => digits % 2 == 0

def Decimals.trim (fuel : Nat) (d : Decimals) : Decimals :=
  match fuel with
  | 0 => d
  | fuel + 1 =>
    if d.digits ≠ 0 ∧ d.digits % 10 = 0 then trim fuel ⟨d.digits / 10, d.exponent + 1⟩ else d

/-- The decimals that read back as a number: everything between `low` and `high`, measured in
`1 / den`, with the ends when `closed`. -/
structure Interval where
  low : Nat
  value : Nat
  high : Nat
  den : Nat
  closed : Bool

/-- What rounds to a positive finite number: half the way to its neighbours. Below a power of two
the neighbours lie twice as close. -/
def interval (x : Double) : Interval :=
  let m := x.mantissa
  let e := x.exponent - 2
  let scale : Nat := twoTo e.toNat
  let below := if x.fraction = 0 ∧ 1 < x.exponentField then 1 else 2
  { low := (4 * m - below) * scale
    value := 4 * m * scale
    high := (4 * m + 2) * scale
    den := twoTo (-e).toNat
    closed := m % 2 == 0 }

namespace Interval

def holds (i : Interval) (d : Decimals) : Bool :=
  let n := d.digits * tenTo d.exponent.toNat * i.den
  let scale := tenTo (-d.exponent).toNat
  if i.closed then i.low * scale ≤ n && n ≤ i.high * scale
  else i.low * scale < n && n < i.high * scale

/-- The number of digits before the decimal point, negative when zeros follow the point. -/
def magnitude (i : Interval) : Int :=
  ((Text.natDigits (i.value * tenTo 400 / i.den)).length : Int) - 400

/-- The best decimal with digits down to `10 ^ exponent`, if one of the two around the value lies
in the interval. -/
def onGrid? (i : Interval) (tie : Tie) (exponent : Int) : Option Decimals :=
  let num := i.value * tenTo (-exponent).toNat
  let den := i.den * tenTo exponent.toNat
  let below : Decimals := ⟨num / den, exponent⟩
  let above : Decimals := ⟨num / den + 1, exponent⟩
  let twice := 2 * (num % den)
  let nearBelow := twice < den || (twice == den && tie.goesDown below.digits)
  match i.holds below && below.digits ≠ 0, i.holds above with
  | true, true => some (if nearBelow then below else above)
  | true, false => some below
  | false, true => some above
  | false, false => none

/-- The first grid with a hit, from `digits` digits on. -/
def search (i : Interval) (tie : Tie) (magnitude : Int) : (grids : Nat) → (digits : Nat) → Decimals
  | 0, _ => ⟨0, 0⟩
  | grids + 1, digits =>
    match i.onGrid? tie (magnitude - digits) with
    | some d => d
    | none => search i tie magnitude grids (digits + 1)

end Interval

def shortest (x : Double) (tie : Tie) : Decimals :=
  if x.isZero then ⟨0, 0⟩
  else
    let i := x.interval
    (i.search tie i.magnitude 18 1).trim 20

/-! ## Written forms -/

/-- Digits with a decimal point where the exponent puts it, and never an exponent. -/
def Decimals.positional (d : Decimals) : List Char :=
  let digits := Text.natDigits d.digits
  if 0 ≤ d.exponent then digits ++ List.replicate d.exponent.toNat '0'
  else
    let places := (-d.exponent).toNat
    let whole := digits.length - places
    if 0 < whole then digits.take whole ++ '.' :: digits.drop whole
    else ['0', '.'] ++ List.replicate (places - digits.length) '0' ++ digits

/-- The number written in full: `20`, `0.1`, `-0`, `inf`, `NaN`. A tie goes away from zero. -/
def text (x : Double) : String :=
  let sign := if x.negative then ['-'] else []
  if x.isNaN then "NaN"
  else if !x.isFinite then String.ofList (sign ++ ['i', 'n', 'f'])
  else String.ofList (sign ++ (x.shortest .up).positional)

/-- The form of finite numbers in JSON: positional with at least one decimal while the point falls
from five places before the digits to sixteen after their start, and else with an exponent that
shows its sign. A tie goes to the even digit. -/
def jsonText (x : Double) : List Char :=
  let sign := if x.negative then ['-'] else []
  let d := x.shortest .even
  let digits := Text.natDigits d.digits
  let point : Int := digits.length + d.exponent
  let body :=
    if x.isZero then ['0', '.', '0']
    else if 0 ≤ d.exponent ∧ point ≤ 16 then d.positional ++ ['.', '0']
    else if -5 < point ∧ point ≤ 16 then d.positional
    else
      let lead := match digits with
        | [] => []
        | [c] => [c]
        | c :: rest => c :: '.' :: rest
      let e := point - 1
      lead ++ 'e' :: (if e < 0 then '-' else '+') :: Text.natDigits e.natAbs
  sign ++ body

end EntityMapping.Double
