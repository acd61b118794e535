import EntityMapping.Double

/-! # Numbers with sixty-four bits of digits

A positive number as digits of sixty-four bits and a power of two. A decimal number is turned into such
a number, multiplied by powers of ten and at last rounded to a `Double`. Every step rounds to the
nearest, between two to the even one, so the result may not be the number nearest to the decimal.
-/

namespace EntityMapping

/-- The number `digits * 2 ^ exponent`. -/
structure Wide where
  digits : Nat
  exponent : Int
deriving DecidableEq, Repr, Inhabited

namespace Wide

/-- The power of two by which a positive fraction is measured, so that the measure has 64 bits. -/
def unitExponent (num den : Nat) : Int :=
  let guess : Int := (num.log2 : Int) - den.log2 - 63
  if num * twoTo (-guess).toNat < twoTo 63 * (den * twoTo guess.toNat) then guess - 1 else guess

def ofFraction (num den : Nat) : Wide :=
  let e := unitExponent num den
  let n := num * twoTo (-e).toNat
  let d := den * twoTo e.toNat
  let q := n / d
  let r := n % d
  ⟨if d < 2 * r ∨ (2 * r = d ∧ q % 2 = 1) then q + 1 else q, e⟩

def ofNat (n : Nat) : Wide := ofFraction n 1

def mul (x y : Wide) : Wide :=
  let p := ofNat (x.digits * y.digits)
  ⟨p.digits, p.exponent + x.exponent + y.exponent⟩

/-- The power `10 ^ n` or its inverse. -/
def tens (inverse : Bool) (n : Nat) : Wide :=
  if inverse then ofFraction 1 (tenTo n) else ofNat (tenTo n)

/-- The product with `10 ^ n` or its inverse, by hundreds, by tens and one by one. -/
def shift (inverse : Bool) (n : Nat) (x : Wide) : Wide :=
  let times (count power : Nat) (x : Wide) := Nat.repeat (·.mul (tens inverse power)) count x
  times (n % 10) 1 (times (n % 100 / 10) 10 (times (n / 100) 100 x))

/-- The nearest number of the narrower format. Beyond its largest one is infinity. -/
def toDouble (negative : Bool) (x : Wide) : Double :=
  let num := x.digits * twoTo x.exponent.toNat
  let den := twoTo (-x.exponent).toNat
  if (twoTo 53 - 1) * twoTo 971 * den < num then .infinity negative
  else .ofFraction negative num den

end Wide

namespace Double

/-! ## Decimal numbers -/

/-- Digits are taken up to here, and the next one is left out. -/
def takenLimit : Nat := (twoTo 64 - 10) / 10

/-- Takes digits after others while there is room: their value, and how many were taken and left out. -/
def takeDigits (value : Nat) (digits : List Char) : Nat × Nat × Nat :=
  digits.foldl
    (fun (value, taken, left) c =>
      if value < takenLimit then (10 * value + (c.toNat - '0'.toNat), taken + 1, left)
      else (value, taken, left + 1)) (value, 0, 0)

/-- Multiplies by ten, at most so many times and while there is room. Tells how often it did not. -/
def growDigits : Nat → Nat → Nat × Nat
  | 0, value => (value, 0)
  | times + 1, value =>
    if value < (twoTo 64 - 1) / 10 then growDigits times (10 * value) else (value, times + 1)

/-- Divides by ten, at most so many times and while nothing is lost. Tells how often it did not. -/
def trimDigits : Nat → Nat → Nat × Nat
  | 0, value => (value, 0)
  | times + 1, value => if value % 10 = 0 then trimDigits times (value / 10) else (value, times + 1)

/-- Exponents with more than five digits count as this one. -/
def steepExponent (e : Int) : Int :=
  if e.natAbs < 100000 then e else if e < 0 then -10000 else 10000

/-- The number for digits before and behind a point and a power of ten. -/
def ofDecimal (negative : Bool) (whole places : List Char) (exponent : Int) : Double :=
  let (value, _, left) := takeDigits 0 whole
  let (value, taken, _) := takeDigits value places
  let e := steepExponent exponent + left - taken
  if value = 0 ∨ e < -400 then .ofFraction negative 0 1
  else if 400 < e then .infinity negative
  else
    let (value, n) := if e < 0 then trimDigits e.natAbs value else growDigits e.natAbs value
    if n = 0 then .ofFraction negative value 1
    else ((Wide.ofNat value).shift (e < 0) n).toDouble negative

end Double

end EntityMapping
