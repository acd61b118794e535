import EntityMapping.DateTime.Reader
import EntityMapping.Json.Embedded
import EntityMapping.Source.Select

/-! # Cells of database tables

A cell keeps the class of what was put into it: integer, real, text or blob. Two cells are equal within
a class and across the two classes of numbers. What a cell means is decided by the type that a column
is read as.
-/

namespace EntityMapping.Source

/-- The content of a cell, by its storage class. The only blobs are identifiers. -/
inductive Cell where
  | null
  | integer (n : Int64)
  | real (x : Double)
  | text (s : String)
  /-- A text by its bytes, which are no characters. Without bytes, what cannot be told at all. -/
  | broken (bytes : List UInt8)
  | blob (u : Uuid)
deriving DecidableEq, Inhabited

namespace Cell

def ofBytes (bytes : List UInt8) : Cell :=
  match String.fromUTF8? bytes.toByteArray with
  | some s => .text s
  | none => .broken bytes

/-- The bytes of a character's number, also of one that is no character. -/
def bytesOfNumber (n : Nat) : List UInt8 :=
  if n < 0x80 then [.ofNat n]
  else if n < 0x800 then [.ofNat (0xc0 + n / 64), .ofNat (0x80 + n % 64)]
  else if n < 0x10000 then
    [.ofNat (0xe0 + n / 4096), .ofNat (0x80 + n / 64 % 64), .ofNat (0x80 + n % 64)]
  else
    [.ofNat (0xf0 + n / 262144), .ofNat (0x80 + n / 4096 % 64), .ofNat (0x80 + n / 64 % 64),
      .ofNat (0x80 + n % 64)]

def ofNumbers (numbers : List Nat) : Cell := ofBytes (numbers.flatMap bytesOfNumber)

/-- Equality in a comparison. Null equals nothing, and numbers compare by value. -/
def equals : Cell → Cell → Bool
  | .integer n, .integer m => n == m
  | .integer n, .real x | .real x, .integer n => x.equalsInt n.toInt
  | .real x, .real y => x.equal y
  | .text s, .text t => s == t
  | .broken b, .broken c => b ≠ [] && b == c
  | .blob u, .blob v => u == v
  | _, _ => false

/-- The cell that a key is passed as. Parameters of other kinds are no keys. -/
def ofParameter : SqlValue → Cell
  | .bigInt (some n) => .integer n
  | .string (some s) => .text s
  | .uuid (some u) => .blob u
  | _ => .null

/-- The cell that keeps a value, if its class is one that tables keep. What is no number at all is kept
as null. -/
def ofValue? : Value → Option Cell
  | .null => some .null
  | .int n => some (.integer n)
  | .float x => some (if x.isNaN then .null else .real x)
  | .string s => some (.text s)
  | .uuid u => some (.blob u)
  | _ => none

/-- What a cell is in a column of a type, if it can be read from it. -/
def decode? : ScalarType → Cell → Option Value
  | _, .null => some .null
  | .any, .integer n | .int, .integer n => some (.int n)
  | .any, .real x | .float, .real x => some (.float x)
  | .any, .text s | .string, .text s => some (.string s)
  | .any, .blob u | .uuid, .blob u => some (.uuid u)
  | .uuid, .text s => (Uuid.ofBytes? (s.toList.flatMap String.utf8EncodeChar)).map .uuid
  | .bool, .integer n => some (.bool (n != 0))
  | .dateTime, .text s => (DateTime.readStored? s.toList).map .dateTime
  | .dateTime, .integer n => (DateTime.ofSeconds? n.toInt).map .dateTime
  | .dateTime, .real x => (DateTime.ofJulianDay? x).map .dateTime
  | .decimal, .real x => (Decimal.ofDouble? x).map .decimal
  | .json, .text s => (Json.parse? s).map .json
  | .any, .broken bytes | .uuid, .broken bytes => (Uuid.ofBytes? bytes).map .uuid
  | _, _ => none

end Cell

end EntityMapping.Source
