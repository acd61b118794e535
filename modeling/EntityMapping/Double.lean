import EntityMapping.Powers
import EntityMapping.Text.Hex

/-! # Binary floating-point numbers

The 64-bit format: a sign, eleven bits of exponent and fifty-two bits of fraction. A number is its
bits, and a finite number stands for a signed integer times a power of two. Arithmetic is done on
these exact values and rounded once, to the nearest number and between two of them to the even one.
-/

namespace EntityMapping

/-- A number, as its bits. -/
structure Double where
  bits : UInt64
deriving DecidableEq, Repr, Inhabited

namespace Double

def negative (x : Double) : Bool := twoTo 63 ≤ x.bits.toNat

def exponentField (x : Double) : Nat := x.bits.toNat / twoTo 52 % twoTo 11

def fraction (x : Double) : Nat := x.bits.toNat % twoTo 52

def isFinite (x : Double) : Bool := x.exponentField != 2047

def isNaN (x : Double) : Bool := x.exponentField == 2047 && x.fraction != 0

def isZero (x : Double) : Bool := x.exponentField == 0 && x.fraction == 0

def mantissa (x : Double) : Nat :=
  if x.exponentField = 0 then x.fraction else x.fraction + twoTo 52

def exponent (x : Double) : Int :=
  if x.exponentField = 0 then -1074 else (x.exponentField : Int) - 1075

/-- The one NaN that is written out. -/
def nan : Double := ⟨0x7ff8000000000000⟩

def infinity (negative : Bool) : Double :=
  if negative then ⟨0xfff0000000000000⟩ else ⟨0x7ff0000000000000⟩

/-- Every NaN is the same one. -/
def canonical (x : Double) : Double := if x.isNaN then nan else x

/-- Equality of values: zero has two signs, and a NaN equals nothing. -/
def equal (x y : Double) : Bool :=
  !x.isNaN && !y.isNaN && (x == y || x.isZero && y.isZero)

def hex (x : Double) : String := String.ofList (Text.hexDigits 16 x.bits.toNat)

def ofHex? (s : String) : Option Double :=
  (s.toList.mapM Text.hexValue?).map fun digits => ⟨.ofNat (Text.ofHexDigits digits)⟩

/-! ## Exact values -/

def numerator (x : Double) : Int :=
  let n : Nat := x.mantissa * twoTo x.exponent.toNat
  if x.negative then -(n : Int) else n

def denominator (x : Double) : Nat := twoTo (-x.exponent).toNat

/-- The power of two by which a positive fraction is measured, so that the measure has 53 bits where
the format allows. -/
def unitExponent (num den : Nat) : Int :=
  let guess : Int := (num.log2 : Int) - den.log2 - 52
  let e := if num * twoTo (-guess).toNat < twoTo 52 * (den * twoTo guess.toNat) then guess - 1 else guess
  max e (-1074)

/-- The number nearest to a fraction, the even one of two. -/
def ofFraction (negative : Bool) (num den : Nat) : Double :=
  let sign : Nat := if negative then twoTo 63 else 0
  if num = 0 then ⟨.ofNat sign⟩ else
  let e := unitExponent num den
  let n := num * twoTo (-e).toNat
  let d := den * twoTo e.toNat
  let q := n / d
  let r := n % d
  let q := if 2 * r > d || (2 * r == d && q % 2 == 1) then q + 1 else q
  let body := (e + 1074).toNat * twoTo 52 + q
  if 2047 * twoTo 52 ≤ body then infinity negative else ⟨.ofNat (sign + body)⟩

/-- The number nearest to a signed fraction. Zero is positive. -/
def ofRatio (num : Int) (den : Nat) : Double := ofFraction (num < 0) num.natAbs den

def ofNat (n : Nat) : Double := ofFraction false n 1

def sub (x y : Double) : Double :=
  ofRatio (x.numerator * y.denominator - y.numerator * x.denominator)
    (x.denominator * y.denominator)

def mul (x y : Double) : Double :=
  ofFraction (x.negative != y.negative) (x.numerator * y.numerator).natAbs
    (x.denominator * y.denominator)

def div (x y : Double) : Double :=
  ofFraction (x.negative != y.negative) (x.numerator.natAbs * y.denominator)
    (x.denominator * y.numerator.natAbs)

/-- The finite number has the value `n`. -/
def equalsInt (x : Double) (n : Int) : Bool :=
  x.isFinite && x.numerator == n * x.denominator

end Double

end EntityMapping
