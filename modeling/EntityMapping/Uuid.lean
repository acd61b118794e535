import EntityMapping.Text.Hex

/-! # Universally unique identifiers

An identifier is its thirty-two hexadecimal digits. It is written in lower case with hyphens after
the digits 8, 12, 16 and 20, and read in that form, in the same form between braces or behind
`urn:uuid:`, and without hyphens. Digits and that lead are read in either case.
-/

namespace EntityMapping

/-- Thirty-two hexadecimal digits. -/
structure Uuid where
  digits : List (Fin 16)
  length_eq : digits.length = 32
deriving DecidableEq, Repr

namespace Uuid

def nil : Uuid := ⟨List.replicate 32 ⟨0, by decide⟩, rfl⟩

instance : Inhabited Uuid := ⟨nil⟩

def isNil (u : Uuid) : Bool := u == nil

def ofHex? (s : List Char) : Option Uuid :=
  match s.mapM Text.hexValue? with
  | none => none
  | some digits => if h : digits.length = 32 then some ⟨digits, h⟩ else none

def lastDigit (n : Nat) : Fin 16 := ⟨n % 16, Nat.mod_lt n (by decide)⟩

/-- The identifier of sixteen bytes, each of which makes two digits. -/
def ofBytes? (bytes : List UInt8) : Option Uuid :=
  let digits := bytes.flatMap fun b => [lastDigit (b.toNat / 16), lastDigit b.toNat]
  if h : digits.length = 32 then some ⟨digits, h⟩ else none

def bytesOf : List (Fin 16) → List UInt8
  | high :: low :: rest => .ofNat (16 * high.val + low.val) :: bytesOf rest
  | _ => []

def bytes (u : Uuid) : List UInt8 := bytesOf u.digits

def groups : List Nat := [8, 4, 4, 4, 12]

def hyphenate : List Nat → List Char → List Char
  | [], _ => []
  | [n], s => s.take n
  | n :: rest, s => s.take n ++ '-' :: hyphenate rest (s.drop n)

/-- Takes groups of the given lengths and the hyphens between them apart, if nothing else is there. -/
def unhyphenate? : List Nat → List Char → Option (List Char)
  | [], s => if s.isEmpty then some [] else none
  | [n], s => if s.length = n then some s else none
  | n :: rest, s =>
    match s.drop n with
    | '-' :: tail => (unhyphenate? rest tail).map (s.take n ++ ·)
    | _ => none

def toChars (u : Uuid) : List Char := hyphenate groups (u.digits.map Text.hexChar)

def text (u : Uuid) : String := String.ofList u.toChars

instance : ToString Uuid := ⟨text⟩

def ofHyphenated? (s : List Char) : Option Uuid := (unhyphenate? groups s).bind ofHex?

def unbrace? : List Char → Option (List Char)
  | '\x7b' :: rest => if rest.getLast? = some '\x7d' then some rest.dropLast else none
  | _ => none

def unname? (s : List Char) : Option (List Char) :=
  let lead := "urn:uuid:".toList
  if (s.take lead.length).map Char.toLower = lead then some (s.drop lead.length) else none

def ofChars? (s : List Char) : Option Uuid :=
  if s.length = 32 then ofHex? s
  else (ofHyphenated? s).orElse fun _ =>
    ((unbrace? s).bind ofHyphenated?).orElse fun _ => (unname? s).bind ofHyphenated?

def parse? (s : String) : Option Uuid := ofChars? s.toList

/-- The order of the digits, the first one counting most. -/
def compare (a b : Uuid) : Ordering := compareOn (·.digits.map Fin.val) a b

end Uuid

end EntityMapping
