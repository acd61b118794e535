import EntityMapping.Double
import EntityMapping.Text.Digits

/-! # Decimal numbers

A sign, ninety-six bits of digits and a scale of at most twenty-eight decimal places. The scale is
part of a number and shows in its text: `1.5` and `1.50` are equal and not the same.
-/

namespace EntityMapping

structure Decimal where
  negative : Bool
  digits : Nat
  scale : Nat
deriving DecidableEq, Repr, Inhabited

namespace Decimal

def digitLimit : Nat := twoTo 96

def scaleLimit : Nat := 28

/-- Zero has no sign when it is read. -/
def make (negative : Bool) (digits scale : Nat) : Decimal :=
  ⟨negative && digits != 0, digits, scale⟩

/-- Equality of values, whatever the scales. -/
def equal (a b : Decimal) : Bool :=
  a.digits * tenTo b.scale == b.digits * tenTo a.scale &&
    (a.negative == b.negative || a.digits == 0)

def text (d : Decimal) : String :=
  let digits := Text.paddedDigits (d.scale + 1) d.digits
  let whole := digits.length - d.scale
  let point := if d.scale = 0 then [] else '.' :: digits.drop whole
  String.ofList ((if d.negative then ['-'] else []) ++ digits.take whole ++ point)

/-! ## Reading -/

/-- Adds one to the last digit. When the digits do not fit any more, the last of them is given up. -/
def roundUp (digits scale : Nat) : Option (Nat × Nat) :=
  if digits + 1 < digitLimit then some (digits + 1, scale)
  else if scale = 0 then none
  else some ((digits + 5) / 10, scale - 1)

/-- Rounds by a digit that is left out, a five upwards. -/
def roundBy (v digits scale : Nat) : Option (Nat × Nat) :=
  if 5 ≤ v then roundUp digits scale else some (digits, scale)

/-- Digits that were read up to here within sixty-four bits, with room for one digit more. -/
def narrowLimit : Nat := (twoTo 64 - 1) / 10 - 255

def roundBehind (digits scale : Nat) : List Char → Option (Nat × Nat)
  | [] => some (digits, scale)
  | '_' :: rest => roundBehind digits scale rest
  | c :: _ => (Text.digitValue? c).bind fun v => roundBy v digits scale

/-- Rounds by the first digit of what is left out. A second point ends the number there, and so does an
underscore, unless the digits before the last one are no narrow number: then it only sets the next
digit apart. -/
def roundOff (digits scale : Nat) : List Char → Option (Nat × Nat)
  | [] | '.' :: _ => some (digits, scale)
  | '_' :: rest =>
    if digits / 10 < narrowLimit then some (digits, scale) else roundBehind digits scale rest
  | c :: _ => (Text.digitValue? c).bind fun v => roundBy v digits scale

/-- Where a reader of digits is: what it has read, and whether it has met a digit and the point. -/
structure Reading where
  digits : Nat
  scale : Nat
  started : Bool
  afterPoint : Bool

/-- Takes digits while they fit. The first one behind the point that does not fit rounds the ones
before it and ends the number; before the point it is an error. Digits may be set apart by
underscores. -/
def readDigits (r : Reading) : List Char → Option (Nat × Nat)
  | [] => if r.started then some (r.digits, r.scale) else none
  | c :: rest =>
    if r.afterPoint ∧ r.scale = scaleLimit then roundOff r.digits r.scale (c :: rest)
    else
      match Text.digitValue? c with
      | none =>
        if c = '.' ∧ r.afterPoint = false then readDigits { r with afterPoint := true } rest
        else if c = '_' ∧ r.started then readDigits r rest
        else none
      | some v =>
        let more := 10 * r.digits + v
        if more < digitLimit then
          let scale := if r.afterPoint then r.scale + 1 else r.scale
          readDigits { r with digits := more, scale, started := true } rest
        else if r.afterPoint then roundBy v r.digits r.scale
        else none

def ofChars? (s : List Char) : Option Decimal :=
  let (negative, body) := match s with
    | '-' :: rest => (true, rest)
    | '+' :: rest => (false, rest)
    | _ => (false, s)
  (readDigits ⟨0, 0, false, false⟩ body).map fun (digits, scale) => make negative digits scale

def parse? (s : String) : Option Decimal := ofChars? s.toList

/-! ## From binary numbers

A whole number keeps its digits. Any other binary number becomes a decimal by exchanging powers of two
for powers of five, as far as ninety-six bits hold them, and is then cut to the digits that a binary
number warrants.
-/

/-- A value `digits * 10 ^ exponent` on the way. -/
structure Scaled where
  digits : Nat
  exponent : Int

/-- Exchanges the factor `2 ^ -n`, one two at a time. A digit string that is full loses its last
bit. -/
def halve : Nat → Scaled → Scaled
  | 0, s => s
  | n + 1, s =>
    if s.digits % 2 = 0 then halve n ⟨s.digits / 2, s.exponent + 1⟩
    else if 5 * s.digits < digitLimit then halve n ⟨5 * s.digits, s.exponent⟩
    else halve n ⟨s.digits / 2, s.exponent + 1⟩

def Scaled.drop (s : Scaled) : Scaled :=
  ⟨if 5 ≤ s.digits % 10 then s.digits / 10 + 1 else s.digits / 10, s.exponent + 1⟩

/-- Drops digits until the scale is in its limit. Digits that vanish leave the scale zero. -/
def underflow : Nat → Scaled → Scaled
  | 0, s => s
  | n + 1, s =>
    if s.exponent < -(scaleLimit : Int) then
      underflow n (if s.digits / 10 = 0 then ⟨0, 0⟩ else s.drop)
    else s

/-- Drops decimal places while there are more than fifty-two bits of digits. -/
def precise : Nat → Scaled → Scaled
  | 0, s => s
  | n + 1, s => if s.exponent < 0 ∧ twoTo 52 ≤ s.digits then precise n s.drop else s

def trim : Nat → Scaled → Scaled
  | 0, s => s
  | n + 1, s =>
    if s.exponent < 0 ∧ s.digits % 10 = 0 then trim n ⟨s.digits / 10, s.exponent + 1⟩ else s

/-- The decimal for a binary number, if it is finite and in range. -/
def ofDouble? (x : Double) : Option Decimal :=
  if !x.isFinite then none
  else if x.isZero then some ⟨x.negative, 0, 0⟩
  else if 0 ≤ x.exponent then
    let digits := x.mantissa * twoTo x.exponent.toNat
    if digits < digitLimit then some ⟨x.negative, digits, 0⟩ else none
  else
    let s := halve (-x.exponent).toNat ⟨x.mantissa, x.exponent⟩
    let s := trim 40 (precise 40 (underflow 1200 s))
    some ⟨x.negative, s.digits, (-s.exponent).toNat⟩

end Decimal

end EntityMapping
