import EntityMapping.Json.Outline

/-! # Reading outlines

The outline of a text by the relaxed grammar, at most a thousand arrays and objects inside one another.
-/

namespace EntityMapping.Json.Outline

def caselessWords : List (String × Outline) := [
  ("inf", .plain .real Relaxed.infinity), ("infinity", .plain .real Relaxed.infinity),
  ("nan", .plain .null "null".toList), ("qnan", .plain .null "null".toList),
  ("snan", .plain .null "null".toList)]

/-- A word in front that no letter or digit follows. -/
def readWord? (s : List Char) : Option (Outline × List Char) :=
  let exact := [("null", Outline.plain .null "null".toList),
    ("true", .plain .true "true".toList), ("false", .plain .false "false".toList)]
  let ends (rest : List Char) := !(rest.head?.map Char.isAlphanum).getD false
  let known := exact.findSome? fun (word, v) =>
    if s.take word.length = word.toList && ends (s.drop word.length) then
      some (v, s.drop word.length)
    else none
  known <|> caselessWords.findSome? fun (word, v) =>
    (Relaxed.caseless? word s).bind fun rest => if ends rest then some (v, rest) else none

def readNumber? (s : List Char) : Option (Outline × List Char) :=
  (Relaxed.readNumber? s).map fun (n, rest) =>
    let kind := match n.kind with
      | .integer => PlainKind.integer
      | .hexadecimal => .hexadecimal
      | .real => .real
    (.plain kind n.spelling, rest)

def readPlain? : List Char → Option (Outline × List Char)
  | [] => none
  | c :: s =>
    if c = '"' ∨ c = '\'' then (Relaxed.readQuoted? c s).map fun (t, s) => (.plain .string t, s)
    else (readWord? (c :: s)).or (readNumber? (c :: s))

/-- The name of a member: a string, or a name that is no value. -/
def readKey? (s : List Char) : Option (List Char × List Char) :=
  match readPlain? s with
  | some (.plain .string name, rest) => some (name, rest)
  | some _ => none
  | none => Relaxed.readName? s

/-- Parts with commas between them, the last of which may have one behind it, up to the closing
character. -/
def readParts? {α : Type} (part : List Char → Option (α × List Char)) (close : Char) :
    Nat → List Char → Option (List α × List Char)
  | 0, _ => none
  | fuel + 1, s =>
    match Relaxed.skip s with
    | [] => none
    | c :: rest =>
      if c = close then some ([], rest)
      else do
        let (x, s) ← part (c :: rest)
        match Relaxed.skip s with
        | ',' :: s => (readParts? part close fuel s).map fun (xs, s) => (x :: xs, s)
        | d :: s => if d = close then some ([x], s) else none
        | [] => none

def readNamed? (value : List Char → Option (Outline × List Char)) (s : List Char) :
    Option ((List Char × Outline) × List Char) := do
  let (name, s) ← readKey? s
  let s ← Text.expect? ':' (Relaxed.skip s)
  let (v, s) ← value (Relaxed.skip s)
  some ((name, v), s)

/-- A value in front, with `depth - 1` arrays and objects inside one another. -/
def readFront? : (depth : Nat) → List Char → Option (Outline × List Char)
  | _, [] => none
  | depth, c :: s =>
    if c = '[' then
      match depth with
      | 0 | 1 => none
      | depth + 2 =>
        (readParts? (readFront? (depth + 1)) ']' (s.length + 1) s).map
          fun (vs, s) => (.array vs, s)
    else if c = '\x7b' then
      match depth with
      | 0 | 1 => none
      | depth + 2 =>
        (readParts? (readNamed? (readFront? (depth + 1))) '\x7d' (s.length + 1) s).map
          fun (ms, s) => (.object ms, s)
    else readPlain? (c :: s)

/-- The outline of a whole text, which ends where a null character stands. -/
def read? (s : List Char) : Option Outline :=
  (readFront? 1001 (Relaxed.skip (s.takeWhile (· ≠ '\x00')))).bind fun (v, rest) =>
    if (Relaxed.skip rest).isEmpty then some v else none

end EntityMapping.Json.Outline
