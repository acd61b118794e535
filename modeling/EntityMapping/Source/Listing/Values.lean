import EntityMapping.Json.Outline.Reader
import EntityMapping.Source.Listing

/-! # Listings of JSON values

The values of a JSON text as rows: those directly in it, or all of them. The text is an argument.
-/

namespace EntityMapping.Source.Listing

def typeText : Json.Outline → String
  | .plain .null _ => "null"
  | .plain .true _ => "true"
  | .plain .false _ => "false"
  | .plain .integer _ | .plain .hexadecimal _ => "integer"
  | .plain .real _ => "real"
  | .plain .string _ => "text"
  | .array _ => "array"
  | .object _ => "object"

def unspelled (spelling : List Char) : Cell := .ofNumbers (Json.Relaxed.numbers spelling)

/-- A value that holds no others. A whole number that does not fit is a real, but one in hexadecimal
digits cannot be told. -/
def atom : Json.Outline → Cell
  | .plain .null _ | .array _ | .object _ => .null
  | .plain .true _ => .integer 1
  | .plain .false _ => .integer 0
  | .plain .string s => unspelled s
  | .plain .hexadecimal s => ((Json.Relaxed.hexInteger? s).map .integer).getD (.broken [])
  | .plain _ s => (numberOfText? (String.ofList s)).getD .null

def content (v : Json.Outline) : Cell :=
  match v with
  | .array _ | .object _ => .text (String.ofList v.text)
  | v => atom v

def stepCell : Option Json.Outline.Step → Cell
  | none => .null
  | some (.index n) => count n
  | some (.name s) => unspelled s

def count? (n : Option Nat) : Cell := (n.map count).getD .null

def valueColumns : List String :=
  ["key", "value", "type", "atom", "id", "parent", "fullkey", "path"]

def valueRow (deep : Bool) (source : String) (entry : Json.Outline.Entry) : Dict String Cell :=
  let p := entry.place
  cells (valueColumns ++ ["json", "root"]) [
    stepCell p.step, content entry.value, .text (typeText entry.value), atom entry.value,
    count? (some p.id), count? (if deep then p.around else none),
    .text (String.ofList p.fullPath), .text (String.ofList p.path), .text source, .text "$"]

def valueRows (deep : Bool) (a : Cell) : Except Error (List TableRow) :=
  match (argumentText? a).bind fun s => (Json.Outline.read? s.toList).map fun v => (s, v) with
  | none => .error (.database "malformed JSON")
  | some (s, v) =>
    .ok (numbered 0 ((if deep then v.walk true .root else v.parts).map (valueRow deep s)))

def values (deep : Bool) : Listing :=
  ⟨plainColumns valueColumns, plainColumns ["json", "root"], .ok [],
    [⟨"json", .number, false, valueRows deep⟩]⟩

end EntityMapping.Source.Listing
