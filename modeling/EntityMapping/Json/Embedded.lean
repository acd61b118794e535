import EntityMapping.Json.Reader

/-! # Embedded texts

An object may stand for the value of a text that is written in it. It has one member, a string under
the name that announces this. The text is read as a whole text of its own, which may embed others. The
name counts only where the first member is written; an object that begins with it and does not hold
just one readable text is an error.
-/

namespace EntityMapping.Json

def embeddedName : String := "$serde_json::private::RawValue"

def announcesText : List (String × Json) → Bool
  | (name, _) :: _ => name = embeddedName
  | [] => false

def onlyText? : List (String × Json) → Option String
  | [(_, .string s)] => some s
  | _ => none

mutual

/-- The value that a value stands for as it is written: embedded texts are read, and the members of all
objects are put in order. -/
def settled? (read : String → Option Json) : Json → Option Json
  | .array items => (settledItems? read items).map .array
  | .object members =>
    if announcesText members then (onlyText? members).bind read
    else (settledMembers? read members).map ofMembers
  | v => some v

def settledItems? (read : String → Option Json) : List Json → Option (List Json)
  | [] => some []
  | v :: rest => do return (← settled? read v) :: (← settledItems? read rest)

def settledMembers? (read : String → Option Json) :
    List (String × Json) → Option (List (String × Json))
  | [] => some []
  | (name, v) :: rest => do return (name, ← settled? read v) :: (← settledMembers? read rest)

end

/-- The value that a whole text writes, with less than `depth` texts inside one another. -/
def parseNested? : (depth : Nat) → String → Option Json
  | 0, _ => none
  | depth + 1, s => (readWritten? s).bind (settled? (parseNested? depth))

/-- The value that a whole text writes. An embedded text is shorter than the text around it, so the
length bounds how deep they lie. -/
def parse? (s : String) : Option Json := parseNested? (s.length + 1) s

end EntityMapping.Json
