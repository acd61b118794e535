import EntityMapping.Double.Shortest
import EntityMapping.Double.Wide
import EntityMapping.Source.Cell

/-! # Affinities

A column may prefer a class of cells. Before a parameter is compared with its cells, a text is taken as
the number that it writes, or a number as its digits. Columns without a type prefer nothing.
-/

namespace EntityMapping.Source

inductive Affinity where
  | none
  | number
  | text
deriving DecidableEq, Repr, Inhabited

/-! ## Numbers as texts -/

def isNumberBlank (c : Char) : Bool := c = ' ' || ('\t' ≤ c && c ≤ '\r')

/-- The number that a text writes between blanks: a sign, digits with or without a point, and an
exponent. A whole number of sixty-four bits is an integer. -/
def numberOfText? (s : String) : Option Cell := do
  let s := s.toList.dropWhile isNumberBlank
  let (negative, s) := match s with
    | '+' :: s => (false, s)
    | '-' :: s => (true, s)
    | s => (false, s)
  let (whole, s) := Text.spanDigits s
  let (places, s) := match s with
    | '.' :: s => let (digits, rest) := Text.spanDigits s; (some digits, rest)
    | s => (none, s)
  let n ← Text.nat? (whole ++ places.getD [])
  let (exponent, s) ← Json.readExponent? s
  let signed : Int := if negative then -(n : Int) else n
  if !s.all isNumberBlank then none
  else if places.isNone ∧ exponent.isNone ∧ Int64.minValue.toInt ≤ signed ∧
      signed ≤ Int64.maxValue.toInt then
    return .integer (.ofInt signed)
  else return .real (Double.ofDecimal negative whole (places.getD []) (exponent.getD 0))

/-- Fifteen digits of a finite number that is not zero. They are rounded from its first eighteen, and a
five is rounded up. -/
def fifteenDigits (x : Double) : Double.Decimals :=
  let i := x.interval
  let exponent := i.magnitude - 18
  let first := i.value * tenTo (-exponent).toNat / (i.den * tenTo exponent.toNat)
  Double.Decimals.trim 20 ⟨(first + 500) / 1000, exponent + 3⟩

/-- The text of a real: at most fifteen digits, with a point, and with an exponent of two digits or more
where the point would fall more than three places before the digits or behind the fifteenth. -/
def realText (x : Double) : String :=
  let sign := if x.negative then ['-'] else []
  if !x.isFinite then String.ofList (sign ++ ['I', 'n', 'f'])
  else if x.isZero then "0.0"
  else
    let d := fifteenDigits x
    let digits := Text.natDigits d.digits
    let point : Int := digits.length + d.exponent
    let body :=
      if -4 < point ∧ point ≤ 15 then
        if 0 ≤ d.exponent then d.positional ++ ['.', '0'] else d.positional
      else
        let e := point - 1
        digits.take 1 ++ '.' :: (if digits.length = 1 then ['0'] else digits.drop 1) ++
          'e' :: (if e < 0 then '-' else '+') :: Text.paddedDigits 2 e.natAbs
    String.ofList (sign ++ body)

/-! ## Comparison -/

namespace Affinity

def apply : Affinity → Cell → Cell
  | .number, .text s => (numberOfText? s).getD (.text s)
  | .text, .integer n => .text (toString n)
  | _, c => c

def equals (a : Affinity) (c : Cell) (parameter : SqlValue) : Bool :=
  c.equals (a.apply (.ofParameter parameter))

end Affinity

end EntityMapping.Source
