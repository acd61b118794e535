import EntityMapping.Json.Reader

/-! # Passing over JSON text

A value that nobody asks for is only held to the grammar: its numbers may be out of range, the escapes
of its strings need not make characters, and its arrays and objects may lie inside one another to any
depth.
-/

namespace EntityMapping.Json

def skipString? : List Char → Option (List Char)
  | [] => none
  | '"' :: s => some s
  | '\\' :: 'u' :: a :: b :: c :: d :: s =>
    if [a, b, c, d].all fun x => (Text.hexValue? x).isSome then skipString? s else none
  | '\\' :: c :: s => if c ∈ "\"\\/bfnrt".toList then skipString? s else none
  | c :: s => if c.toNat < 0x20 ∨ c = '\\' then none else skipString? s

/-- What a reader finds, when only what follows it counts. -/
def skipped (rest : List Char) : Unit × List Char := ((), rest)

def skipMember? (value : List Char → Option (Unit × List Char)) :
    List Char → Option (Unit × List Char)
  | '"' :: s => do
    let s ← skipString? s
    let s ← Text.expect? ':' (skipBlanks s)
    value (skipBlanks s)
  | _ => none

/-- Passes over a value in front, with at most `depth` arrays and objects inside one another. -/
def skipWithin? : (depth : Nat) → List Char → Option (Unit × List Char)
  | _, [] => none
  | depth, c :: s =>
    if c = 'n' then (readWord? "ull" s).map skipped
    else if c = 't' then (readWord? "rue" s).map skipped
    else if c = 'f' then (readWord? "alse" s).map skipped
    else if c = '"' then (skipString? s).map skipped
    else if c = '[' then
      match depth with
      | 0 => none
      | depth + 1 => (readSeriesOrNone? (skipWithin? depth) ']' s).map fun r => skipped r.2
    else if c = '\x7b' then
      match depth with
      | 0 => none
      | depth + 1 =>
        (readSeriesOrNone? (skipMember? (skipWithin? depth)) '\x7d' s).map fun r => skipped r.2
    else (readNumeral? (c :: s)).map fun r => skipped r.2

/-- What follows a value in front. No text holds more arrays and objects than characters. -/
def skipValue? (s : List Char) : Option (List Char) := (skipWithin? s.length s).map (·.2)

end EntityMapping.Json
