/-! # Names in snake case

A name falls into runs of ASCII letters and digits, and each run into words at its changes of case.
The words are written in lower case with an underscore between them.
-/

namespace EntityMapping.Text

def isNameChar (c : Char) : Bool := c.isAlphanum

/-- The runs of name characters, in order, without the empty ones. -/
def runs (s : List Char) : List (List Char) :=
  go s []
where
  /-- `run` is the run being read, last character first. -/
  go : List Char → List Char → List (List Char)
    | [], run => close run []
    | c :: rest, run => if isNameChar c then go rest (c :: run) else close run (go rest [])
  close (run : List Char) (rest : List (List Char)) : List (List Char) :=
    if run.isEmpty then rest else run.reverse :: rest

/-- The case of the last letter read. Digits leave it as it is. -/
inductive LetterCase where
  | unknown
  | lower
  | upper
deriving DecidableEq, Repr

def LetterCase.after (k : LetterCase) (c : Char) : LetterCase :=
  if c.isLower then .lower else if c.isUpper then .upper else k

/-- The words of one run. A word ends after a character whose case so far is lower when an upper-case
letter follows, and before an upper-case letter that follows an upper-case one when a lower-case
letter comes next. -/
def words : List Char → List (List Char) :=
  go .unknown []
where
  /-- `word` is the word being read, last character first, and `k` its case so far. -/
  go (k : LetterCase) (word : List Char) : List Char → List (List Char)
    | [] => if word.isEmpty then [] else [word.reverse]
    | [c] => [(c :: word).reverse]
    | c :: next :: rest =>
      let k' := k.after c
      if k' = .lower && next.isUpper then
        (c :: word).reverse :: go .unknown [] (next :: rest)
      else if k = .upper && c.isUpper && next.isLower then
        word.reverse :: go .unknown [c] (next :: rest)
      else go k' (c :: word) (next :: rest)

def snakeCase (s : String) : String :=
  let parts := (runs s.toList).flatMap words
  String.intercalate "_" (parts.map fun w => String.ofList (w.map Char.toLower))

end EntityMapping.Text
