import EntityMapping.DateTime
import EntityMapping.Decimal
import EntityMapping.Double.Shortest
import EntityMapping.Json.Printer
import EntityMapping.Text.Quoted
import EntityMapping.Uuid

/-! # Values

What a source row holds and what a destination field holds. Destination objects are shared and
change, so a value holds a reference to one; the name of its type never changes and is part of the
reference.
-/

namespace EntityMapping

/-- The identity of a destination object and the name of its type. -/
structure ObjectRef where
  id : Nat
  typeName : String
deriving DecidableEq, Repr, Inhabited

inductive Value where
  | null
  | bool (b : Bool)
  | int (n : Int64)
  | float (x : Double)
  | string (s : String)
  | uuid (u : Uuid)
  | dateTime (t : DateTime)
  | decimal (d : Decimal)
  | json (j : Json)
  | list (items : List Value)
  | row (fields : Dict String Value)
  | object (ref : ObjectRef)
deriving Inhabited

/-- A source row: named values in the order of their columns. -/
abbrev Row := Dict String Value

namespace Value

def isNull : Value → Bool
  | .null => true
  | _ => false

def ofOption {α : Type} (f : α → Value) : Option α → Value
  | some a => f a
  | none => .null

/-- The name of the value's type, as messages give it. -/
def typeName : Value → String
  | .null => "null"
  | .bool _ => "bool"
  | .int _ => "int"
  | .float _ => "float"
  | .string _ => "string"
  | .uuid _ => "uuid"
  | .dateTime _ => "datetime"
  | .decimal _ => "decimal"
  | .json _ => "json"
  | .list _ => "list"
  | .row _ => "row"
  | .object ref => ref.typeName

def asInt? : Value → Option Int64
  | .int n => some n
  | _ => none

def asString? : Value → Option String
  | .string s => some s
  | _ => none

def asList? : Value → Option (List Value)
  | .list items => some items
  | _ => none

def asRow? : Value → Option Row
  | .row fields => some fields
  | _ => none

def asObject? : Value → Option ObjectRef
  | .object ref => some ref
  | _ => none

/-- The value in one line: scalars in full, strings in quotes, lists and rows by their size and
objects by their type. -/
def text : Value → String
  | .null => "null"
  | .bool b => if b then "true" else "false"
  | .int n => toString n.toInt
  | .float x => x.text
  | .string s => Text.quoted s
  | .uuid u => u.text
  | .dateTime t => t.text
  | .decimal d => d.text
  | .json j => j.text
  | .list items => s!"[{items.length} items]"
  | .row fields => s!"\x7b{fields.size} fields\x7d"
  | .object ref => ref.typeName

mutual

/-- Equality as values: numbers by value, moments by instant, rows whatever the order of their
fields, and objects by identity. A NaN equals nothing. -/
def equal : Value → Value → Bool
  | .null, .null => true
  | .bool a, .bool b => a == b
  | .int a, .int b => a == b
  | .float a, .float b => a.equal b
  | .string a, .string b => a == b
  | .uuid a, .uuid b => a == b
  | .dateTime a, .dateTime b => a.equal b
  | .decimal a, .decimal b => a.equal b
  | .json a, .json b => a.equal b
  | .list a, .list b => equalItems a b
  | .row ⟨a⟩, .row ⟨b⟩ => a.length == b.length && equalFields a b
  | .object a, .object b => a == b
  | _, _ => false

def equalItems : List Value → List Value → Bool
  | [], [] => true
  | a :: as, b :: bs => equal a b && equalItems as bs
  | _, _ => false

/-- Every field of the first list has an equal one in the second. -/
def equalFields : List (String × Value) → List (String × Value) → Bool
  | [], _ => true
  | (name, a) :: rest, bs =>
    (match Dict.lookup name bs with
      | some b => equal a b
      | none => false) && equalFields rest bs

end

end Value

end EntityMapping
