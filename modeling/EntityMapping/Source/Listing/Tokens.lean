import EntityMapping.Source.Listing

/-! # Listings of tokens

The words of a text as rows. A word is a run of ASCII letters and digits and of bytes that are not
ASCII. It is told in lower case, with the places where it begins and ends, counted in bytes.
-/

namespace EntityMapping.Source.Listing

structure Token where
  start : Nat
  bytes : List UInt8
deriving Inhabited

namespace Token

/-- The byte is one between words. The null byte is none. -/
def separates (b : UInt8) : Bool :=
  b ≠ 0 && b < 0x80 && !(Char.ofNat b.toNat).isAlphanum

def lowered (b : UInt8) : UInt8 := if 0x41 ≤ b && b ≤ 0x5a then b + 0x20 else b

/-- The words of bytes, the first of which stands at `place`. The bytes of the word before it are given
from its end. -/
def scan (place : Nat) (word : List UInt8) : List UInt8 → List Token
  | [] => ended
  | b :: rest =>
    if separates b then ended ++ scan (place + 1) [] rest
    else scan (place + 1) (lowered b :: word) rest
where
  ended : List Token := if word.isEmpty then [] else [⟨place - word.length, word.reverse⟩]

end Token

def tokenColumns : List String := ["input", "token", "start", "end", "position"]

def textBytes : Cell → List UInt8
  | .text s => s.toList.flatMap String.utf8EncodeChar
  | .blob u => u.bytes
  | .broken bytes => bytes
  | c => ((argumentText? c).getD "").toList.flatMap String.utf8EncodeChar

/-- The rows of the words in a text. The text itself is told up to a null character. -/
def tokenRows (a : Cell) : Except Error (List TableRow) :=
  let bytes := textBytes a
  let input := Cell.ofBytes (bytes.takeWhile (· ≠ 0))
  .ok (numbered 1 ((Token.scan 0 [] bytes).zipIdx.map fun (t, position) =>
    cells tokenColumns [input, .ofBytes t.bytes, count t.start,
      count (t.start + t.bytes.length), count position]))

def tokens : Listing :=
  ⟨plainColumns tokenColumns, [], .error (.database "no text"),
    [⟨"input", .none, false, tokenRows⟩]⟩

end EntityMapping.Source.Listing
