import EntityMapping.Json
import EntityMapping.Text.Digits
import EntityMapping.Text.Hex

/-! # Reading JSON text

The grammar of JSON with blanks between tokens, at most 127 arrays and objects inside one another. A
number without decimals and exponent that fits in 64 bits, with or without sign, is an integer, and
every other number is binary.
-/

namespace EntityMapping.Json

def isBlank (c : Char) : Bool := c = ' ' || c = '\t' || c = '\n' || c = '\r'

def skipBlanks (s : List Char) : List Char := s.dropWhile isBlank

/-! ## Numbers -/

/-- The digits of a number while they fit in 64 bits, and how many were left out. -/
structure Significand where
  value : Nat
  dropped : Nat

def Significand.take (s : Significand) (digits : List Char) : Significand :=
  digits.foldl
    (fun s c =>
      let more := 10 * s.value + (c.toNat - '0'.toNat)
      if s.dropped = 0 ∧ more < twoTo 64 then ⟨more, 0⟩ else ⟨s.value, s.dropped + 1⟩) s

/-- `value * 10 ^ exponent`, rounded after each of its steps: the digits to a binary number, and then
at most 308 powers of ten at a time. Nothing when it is out of range. -/
def scaled (steps : Nat) (x : Double) (exponent : Int) : Option Double :=
  match steps with
  | 0 => some x
  | steps + 1 =>
    if exponent.natAbs ≤ 308 then
      let power := Double.ofNat (tenTo exponent.natAbs)
      if 0 ≤ exponent then
        let y := x.mul power
        if y.isFinite then some y else none
      else some (x.div power)
    else if x.isZero then some x
    else if 0 ≤ exponent then none
    else scaled steps (x.div (Double.ofNat (tenTo 308))) (exponent + 308)

def floatOf (negative : Bool) (significand : Nat) (exponent : Int) : Option Json :=
  (scaled 4 (Double.ofNat significand) exponent).map fun x =>
    .float (if negative then ⟨x.bits ||| 0x8000000000000000⟩ else x)

def exponentLimit : Nat := 2147483647

/-- `e+12` in front: the exponent. -/
def readExponent? : List Char → Option (Option Int × List Char)
  | c :: s =>
    if c = 'e' ∨ c = 'E' then
      let (sign, s) := match s with
        | '+' :: s => ((1 : Int), s)
        | '-' :: s => (-1, s)
        | s => (1, s)
      let (digits, rest) := Text.spanDigits s
      (Text.nat? digits).map fun n => (some (sign * n), rest)
    else some (none, c :: s)
  | [] => some (none, [])

structure Numeral where
  negative : Bool
  whole : List Char
  decimals : Option (List Char)
  exponent : Option Int

/-- A number in front. It starts with a zero only when that is all of its whole part. -/
def readNumeral? (s : List Char) : Option (Numeral × List Char) := do
  let (negative, s) := match s with
    | '-' :: s => (true, s)
    | s => (false, s)
  let (whole, s) := Text.spanDigits s
  if whole.isEmpty ∨ (whole.head? = some '0' ∧ 1 < whole.length) then none
  else
    let (decimals, s) ← match s with
      | '.' :: s =>
        let (digits, rest) := Text.spanDigits s
        if digits.isEmpty then none else some (some digits, rest)
      | s => some (none, s)
    let (exponent, s) ← readExponent? s
    some (⟨negative, whole, decimals, exponent⟩, s)

/-- The value of a number. The digits behind the point are taken while they fit, also when some before
it did not. -/
def Numeral.value? (n : Numeral) : Option Json :=
  let s := Significand.take ⟨0, 0⟩ n.whole
  match n.decimals, n.exponent with
  | none, none =>
    if s.dropped = 0 ∧ n.negative = false then some (.int s.value)
    else if s.dropped = 0 ∧ 0 < s.value ∧ s.value ≤ twoTo 63 then some (.int (-(s.value : Int)))
    else floatOf n.negative s.value s.dropped
  | _, _ =>
    let places := n.decimals.getD []
    let t := Significand.take ⟨s.value, 0⟩ places
    let kept := places.length - t.dropped
    let base : Int := s.dropped - kept
    let e := n.exponent.getD 0
    if exponentLimit < e.natAbs then
      if t.value ≠ 0 ∧ 0 < e then none
      else some (.float (if n.negative then ⟨0x8000000000000000⟩ else ⟨0⟩))
    else floatOf n.negative t.value (base + e)

def readNumber? (s : List Char) : Option (Json × List Char) := do
  let (n, s) ← readNumeral? s
  let v ← n.value?
  some (v, s)

/-! ## Strings -/

def readUnit? : List Char → Option (Nat × List Char)
  | a :: b :: c :: d :: rest =>
    ([a, b, c, d].mapM Text.hexValue?).map fun digits => (Text.ofHexDigits digits, rest)
  | _ => none

/-- The character of one escape, behind its backslash. Two halves of a pair make one character, and
a half alone is an error. -/
def readEscape? : List Char → Option (Char × List Char)
  | '"' :: s => some ('"', s)
  | '\\' :: s => some ('\\', s)
  | '/' :: s => some ('/', s)
  | 'b' :: s => some ('\x08', s)
  | 'f' :: s => some ('\x0c', s)
  | 'n' :: s => some ('\n', s)
  | 'r' :: s => some ('\r', s)
  | 't' :: s => some ('\t', s)
  | 'u' :: s => do
    let (unit, s) ← readUnit? s
    if 0xd800 ≤ unit ∧ unit < 0xdc00 then
      match s with
      | '\\' :: 'u' :: s =>
        let (low, s) ← readUnit? s
        if 0xdc00 ≤ low ∧ low < 0xe000 then
          some (Char.ofNat (0x10000 + (unit - 0xd800) * 1024 + (low - 0xdc00)), s)
        else none
      | _ => none
    else if 0xdc00 ≤ unit ∧ unit < 0xe000 then none
    else some (Char.ofNat unit, s)
  | _ => none

def readString? (fuel : Nat) (read : List Char) (s : List Char) : Option (String × List Char) :=
  match fuel, s with
  | _ + 1, '"' :: rest => some (String.ofList read.reverse, rest)
  | fuel + 1, '\\' :: rest =>
    (readEscape? rest).bind fun (c, rest) => readString? fuel (c :: read) rest
  | fuel + 1, c :: rest => if c.toNat < 0x20 then none else readString? fuel (c :: read) rest
  | _, _ => none

/-! ## Values -/

/-- Something, and then either a comma and more of it or the closing character. -/
def readSeries? {α : Type} (item : List Char → Option (α × List Char)) (close : Char) :
    Nat → List Char → Option (List α × List Char)
  | 0, _ => none
  | fuel + 1, s => do
    let (x, s) ← item (skipBlanks s)
    match skipBlanks s with
    | c :: s =>
      if c = ',' then (readSeries? item close fuel s).map fun (xs, s) => (x :: xs, s)
      else if c = close then some ([x], s)
      else none
    | [] => none

def readSeriesOrNone? {α : Type} (item : List Char → Option (α × List Char)) (close : Char)
    (s : List Char) : Option (List α × List Char) :=
  match skipBlanks s with
  | c :: rest => if c = close then some ([], rest) else readSeries? item close (s.length + 1) s
  | [] => none

/-- A member of an object: a name, a colon and a value. How the value is read may depend on the
name. -/
def readMember? (value : String → List Char → Option (Json × List Char)) :
    List Char → Option ((String × Json) × List Char)
  | '"' :: s => do
    let (name, s) ← readString? (s.length + 1) [] s
    let s ← Text.expect? ':' (skipBlanks s)
    let (v, s) ← value name (skipBlanks s)
    some ((name, v), s)
  | _ => none

def readWord? (word : String) (s : List Char) : Option (List Char) :=
  if s.take word.length = word.toList then some (s.drop word.length) else none

/-- A value in front, with `depth - 1` arrays and objects inside one another. Objects keep their
members as they are written. -/
def readValue? : (depth : Nat) → List Char → Option (Json × List Char)
  | _, [] => none
  | depth, c :: s =>
    if c = 'n' then (readWord? "ull" s).map fun s => (.null, s)
    else if c = 't' then (readWord? "rue" s).map fun s => (.bool true, s)
    else if c = 'f' then (readWord? "alse" s).map fun s => (.bool false, s)
    else if c = '"' then (readString? (s.length + 1) [] s).map fun (t, s) => (.string t, s)
    else if c = '[' then
      match depth with
      | 0 | 1 => none
      | depth + 2 =>
        (readSeriesOrNone? (readValue? (depth + 1)) ']' s).map fun (xs, s) => (.array xs, s)
    else if c = '\x7b' then
      match depth with
      | 0 | 1 => none
      | depth + 2 =>
        (readSeriesOrNone? (readMember? fun _ => readValue? (depth + 1)) '\x7d' s).map
          fun (ms, s) => (.object ms, s)
    else readNumber? (c :: s)

def readWhole? (read : List Char → Option (Json × List Char)) (s : String) : Option Json :=
  (read (skipBlanks s.toList)).bind fun (v, rest) =>
    if (skipBlanks rest).isEmpty then some v else none

/-- The value that a whole text writes, with the members of objects as they are written. -/
def readWritten? (s : String) : Option Json := readWhole? (readValue? 128) s

end EntityMapping.Json
