import EntityMapping.Text.Digits
import EntityMapping.Text.Hex
import EntityMapping.Powers

/-! # The relaxed grammar of JSON

A grammar that takes more than the strict one: comments, more blanks, names without quotes, strings
between single quotes with more escapes, a plus sign, hexadecimal numbers, reals without digits on one
side of the point, and words for infinity and for what is no number. Each reader gives the spelling of
what it reads; spellings are turned into strict ones and into what they stand for.
-/

namespace EntityMapping.Json.Relaxed

/-! ## Blanks -/

def isBlank (c : Char) : Bool :=
  let n := c.toNat
  (0x09 ≤ n && n ≤ 0x0d) || (0x2000 ≤ n && n ≤ 0x200a) ||
    n ∈ [0x20, 0xa0, 0x1680, 0x2028, 0x2029, 0x202f, 0x205f, 0x3000, 0xfeff]

def isLineSeparator (c : Char) : Bool := c.toNat = 0x2028 || c.toNat = 0x2029

/-- What follows a comment that ends with a star and a slash, behind the character `last` in it. -/
def endOfComment? (last : Char) : List Char → Option (List Char)
  | [] => none
  | c :: s => if last = '*' ∧ c = '/' then some s else endOfComment? c s

def endOfLine : List Char → List Char
  | [] => []
  | c :: s => if c = '\n' ∨ c = '\r' ∨ isLineSeparator c then s else endOfLine s

def skipOne? : List Char → Option (List Char)
  | '/' :: '*' :: c :: s => endOfComment? c s
  | '/' :: '/' :: s => some (endOfLine s)
  | c :: s => if isBlank c then some s else none
  | [] => none

/-- Skips blanks and comments, `steps` at most. -/
def skipSteps : (steps : Nat) → List Char → List Char
  | 0, s => s
  | steps + 1, s =>
    match skipOne? s with
    | some rest => skipSteps steps rest
    | none => s

/-- Skips blanks and comments. Each of them takes a character at least. -/
def skip (s : List Char) : List Char := skipSteps s.length s

/-! ## Numbers -/

inductive NumberKind where
  | integer
  | hexadecimal
  | real
deriving DecidableEq, Repr, Inhabited

structure Number where
  kind : NumberKind
  spelling : List Char
deriving Inhabited

/-- The text begins with a word in any case, and what follows it. -/
def caseless? (word : String) (s : List Char) : Option (List Char) :=
  if (s.take word.length).map Char.toLower = word.toList then some (s.drop word.length) else none

def infinity : List Char := "9e999".toList

/-- An exponent in front, as it is spelled, if the text goes on like one. -/
def readExponent? : List Char → Option (List Char × List Char)
  | c :: s =>
    if c = 'e' ∨ c = 'E' then
      let (sign, s) := match s with
        | '+' :: s => (['+'], s)
        | '-' :: s => (['-'], s)
        | s => ([], s)
      let (digits, rest) := Text.spanDigits s
      if digits.isEmpty then none else some (c :: sign ++ digits, rest)
    else some ([], c :: s)
  | [] => some ([], [])

/-- A decimal number in front, with digits on one side of the point at least. A zero in front of other
digits is an error. -/
def readDecimal? (s : List Char) : Option (Number × List Char) := do
  let (whole, s) := Text.spanDigits s
  if whole.head? = some '0' ∧ 1 < whole.length then none
  else
    let (places, s) := match s with
      | '.' :: s => let (digits, rest) := Text.spanDigits s; ('.' :: digits, rest)
      | s => ([], s)
    if whole.isEmpty ∧ places.length ≤ 1 then none
    else
      let (exponent, s) ← readExponent? s
      let kind := if places.isEmpty ∧ exponent.isEmpty then .integer else .real
      some (⟨kind, whole ++ places ++ exponent⟩, s)

def readUnsigned? : List Char → Option (Number × List Char)
  | '0' :: x :: s =>
    let digits := s.takeWhile fun c => (Text.hexValue? c).isSome
    if (x = 'x' ∨ x = 'X') ∧ digits ≠ [] then
      some (⟨.hexadecimal, '0' :: x :: digits⟩, s.drop digits.length)
    else readDecimal? ('0' :: x :: s)
  | s => readDecimal? s

/-- What may follow a sign: a number or the word for infinity. -/
def readSigned? (s : List Char) : Option (Number × List Char) :=
  match caseless? "inf" s with
  | some rest => some (⟨.real, infinity⟩, (caseless? "inity" rest).getD rest)
  | none => readUnsigned? s

/-- A number in front. The plus sign is left out of the spelling. -/
def readNumber? : List Char → Option (Number × List Char)
  | '+' :: s => readSigned? s
  | '-' :: s => (readSigned? s).map fun (n, rest) => (⟨n.kind, '-' :: n.spelling⟩, rest)
  | s => readUnsigned? s

/-- The value of hexadecimal digits, if sixteen of them are enough. -/
def hexNat? (digits : List Char) : Option Nat :=
  let digits := digits.dropWhile (· = '0')
  if 16 < digits.length then none else (digits.mapM Text.hexValue?).map Text.ofHexDigits

def hexParts : List Char → Bool × List Char
  | '-' :: s => (true, s.drop 2)
  | s => (false, s.drop 2)

/-- A hexadecimal number in decimal digits. One with too many digits is infinity. -/
def decimalText (spelling : List Char) : List Char :=
  let (negative, digits) := hexParts spelling
  let text := ((hexNat? digits).map Text.natDigits).getD "9.0e999".toList
  if negative then '-' :: text else text

/-- A hexadecimal number that has not too many digits, in sixty-four bits. -/
def hexInteger? (spelling : List Char) : Option Int64 :=
  let (negative, digits) := hexParts spelling
  (hexNat? digits).map fun n => if negative then -(Int64.ofNat n) else Int64.ofNat n

def pointed : (before : Bool) → List Char → List Char
  | _, [] => []
  | before, '.' :: s =>
    let after := (s.head?.map Char.isDigit).getD false
    (if before then [] else ['0']) ++ '.' :: (if after then [] else ['0']) ++ pointed true s
  | _, c :: s => c :: pointed c.isDigit s

def strictReal (spelling : List Char) : List Char := pointed false spelling

/-! ## Names and strings -/

def isNameStart (c : Char) : Bool := c.isAlpha || c = '_' || c = '$' || 0x80 ≤ c.toNat

def hasUnit (s : List Char) : Bool :=
  (s.take 4).length = 4 && (s.take 4).all fun c => (Text.hexValue? c).isSome

def readNameRest : List Char → List Char × List Char
  | [] => ([], [])
  | c :: s =>
    let goesOn :=
      if c = '\\' then s.head? = some 'u' && hasUnit (s.drop 1)
      else (isNameStart c || c.isDigit) && !isBlank c
    if goesOn then
      let (name, rest) := readNameRest s
      (c :: name, rest)
    else ([], c :: s)

def readName? : List Char → Option (List Char × List Char)
  | [] => none
  | c :: s =>
    if isNameStart c || (c = '\\' && s.head? = some 'u' && hasUnit (s.drop 1)) then
      let (name, rest) := readNameRest s
      some (c :: name, rest)
    else none

def isEscape (c : Char) (s : List Char) : Bool :=
  c ∈ ['"', '\\', '/', 'b', 'f', 'n', 'r', 't', '\'', '0', 'v', '\n', '\r'] || isLineSeparator c ||
    (c = 'u' && hasUnit s) ||
    (c = 'x' && (s.take 2).length = 2 && (s.take 2).all fun c => (Text.hexValue? c).isSome)

def readQuoted? (quote : Char) : List Char → Option (List Char × List Char)
  | [] => none
  | '\\' :: c :: s =>
    if isEscape c s then
      (readQuoted? quote s).map fun (spelling, rest) => ('\\' :: c :: spelling, rest)
    else none
  | c :: s =>
    if c = quote then some ([], s)
    else (readQuoted? quote s).map fun (spelling, rest) => (c :: spelling, rest)

def controlEscape (c : Char) : List Char :=
  match c with
  | '\x08' => ['\\', 'b']
  | '\t' => ['\\', 't']
  | '\n' => ['\\', 'n']
  | '\x0c' => ['\\', 'f']
  | '\r' => ['\\', 'r']
  | c => '\\' :: 'u' :: Text.hexDigits 4 c.toNat

/-- A string as the strict grammar spells it. The vertical tab becomes a tab. -/
def strictString : List Char → List Char
  | '\\' :: '\'' :: s => '\'' :: strictString s
  | '\\' :: 'v' :: s => "\\u0009".toList ++ strictString s
  | '\\' :: 'x' :: a :: b :: s => "\\u00".toList ++ a :: b :: strictString s
  | '\\' :: '0' :: s => "\\u0000".toList ++ strictString s
  | '\\' :: '\r' :: '\n' :: s => strictString s
  | '\\' :: c :: s =>
    if c = '\r' ∨ c = '\n' ∨ isLineSeparator c then strictString s
    else '\\' :: c :: strictString s
  | '"' :: s => '\\' :: '"' :: strictString s
  | c :: s => if c.toNat < 0x20 then controlEscape c ++ strictString s else c :: strictString s
  | [] => []

def unit? (s : List Char) : Option Nat :=
  if hasUnit s then ((s.take 4).mapM Text.hexValue?).map Text.ofHexDigits else none

/-- What an escape of four digits stands for, with the text behind them: two halves of a pair make one
character. The length of what was read is told. -/
def unitValue (unit : Nat) (s : List Char) : Nat × Nat :=
  let low := if s.take 2 = ['\\', 'u'] then unit? (s.drop 2) else none
  match low with
  | some low =>
    if 0xd800 ≤ unit ∧ unit < 0xdc00 ∧ 0xdc00 ≤ low ∧ low < 0xe000 then
      (0x10000 + (unit - 0xd800) * 1024 + (low - 0xdc00), 6)
    else (unit, 0)
  | none => (unit, 0)

def skipLineEnds : List Char → List Char
  | '\\' :: '\r' :: '\n' :: s => skipLineEnds s
  | '\\' :: c :: s =>
    if c = '\r' ∨ c = '\n' ∨ isLineSeparator c then skipLineEnds s else '\\' :: c :: s
  | s => s

/-- The numbers of the characters that a spelling stands for, `steps` at most. Half of a pair has a
number, too. Escaped line ends stand for nothing, but at the end of a string for a null character. -/
def numbersFrom : (steps : Nat) → List Char → List Nat
  | 0, _ | _, [] => []
  | steps + 1, '\\' :: c :: s =>
    match c with
    | 'u' =>
      let (n, more) := unitValue ((unit? s).getD 0) (s.drop 4)
      n :: numbersFrom steps (s.drop (4 + more))
    | 'x' =>
      ((s.take 2).mapM Text.hexValue?).elim 0 Text.ofHexDigits :: numbersFrom steps (s.drop 2)
    | 'b' => 0x08 :: numbersFrom steps s
    | 'f' => 0x0c :: numbersFrom steps s
    | 'n' => 0x0a :: numbersFrom steps s
    | 'r' => 0x0d :: numbersFrom steps s
    | 't' => 0x09 :: numbersFrom steps s
    | 'v' => 0x0b :: numbersFrom steps s
    | '0' => 0 :: numbersFrom steps s
    | c =>
      if c = '\r' ∨ c = '\n' ∨ isLineSeparator c then
        let rest := skipLineEnds ('\\' :: c :: s)
        if rest.isEmpty then [0] else numbersFrom steps rest
      else c.toNat :: numbersFrom steps s
  | steps + 1, c :: s => c.toNat :: numbersFrom steps s

def numbers (spelling : List Char) : List Nat := numbersFrom spelling.length spelling

end EntityMapping.Json.Relaxed
