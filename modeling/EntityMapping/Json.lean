import EntityMapping.Dict
import EntityMapping.Double

/-! # JSON values

Integers and binary numbers are kept apart: an integer is written without a decimal point, a binary
number always with one or with an exponent. The members of an object stand in the order of their
names, and no name stands twice.
-/

namespace EntityMapping

inductive Json where
  | null
  | bool (b : Bool)
  | int (n : Int)
  | float (x : Double)
  | string (s : String)
  | array (items : List Json)
  | object (members : List (String × Json))
deriving Inhabited

namespace Json

/-- A binary number, or null when it is not finite. -/
def ofDouble (x : Double) : Json := if x.isFinite then .float x else .null

/-- Puts a member in its place. A member of the same name gives way. -/
def insertMember (name : String) (v : Json) : List (String × Json) → List (String × Json)
  | [] => [(name, v)]
  | m :: rest =>
    if name < m.1 then (name, v) :: m :: rest
    else if name = m.1 then (name, v) :: rest
    else m :: insertMember name v rest

/-- The object with these members, of which later ones replace earlier ones of the same name. -/
def ofMembers (members : List (String × Json)) : Json :=
  .object (members.foldl (fun kept m => insertMember m.1 m.2 kept) [])

mutual

/-- Equality of values: binary numbers compare by value, and never with integers. -/
def equal : Json → Json → Bool
  | .null, .null => true
  | .bool a, .bool b => a == b
  | .int a, .int b => a == b
  | .float a, .float b => a.equal b
  | .string a, .string b => a == b
  | .array a, .array b => equalItems a b
  | .object a, .object b => equalMembers a b
  | _, _ => false

def equalItems : List Json → List Json → Bool
  | [], [] => true
  | a :: as, b :: bs => equal a b && equalItems as bs
  | _, _ => false

def equalMembers : List (String × Json) → List (String × Json) → Bool
  | [], [] => true
  | (n, a) :: as, (m, b) :: bs => n == m && equal a b && equalMembers as bs
  | _, _ => false

end

def member? (name : String) : Json → Option Json
  | .object members => Dict.lookup name members
  | _ => none

end Json

end EntityMapping
