import EntityMapping.Value

/-! # Types of columns and plain fields -/

namespace EntityMapping

inductive ScalarType where
  | any
  | bool
  | int
  | float
  | string
  | uuid
  | dateTime
  | decimal
  | json
deriving DecidableEq, Repr, Inhabited

namespace ScalarType

def all : List ScalarType := [any, bool, int, float, string, uuid, dateTime, decimal, json]

def text : ScalarType → String
  | .any => "any"
  | .bool => "bool"
  | .int => "int"
  | .float => "float"
  | .string => "string"
  | .uuid => "uuid"
  | .dateTime => "datetime"
  | .decimal => "decimal"
  | .json => "json"

def declaredName : ScalarType → String
  | .dateTime => "date_time"
  | t => t.text

def ofDeclared? (name : String) : Option ScalarType := all.find? (·.declaredName = name)

/-- A field of this type may hold the value. Null fits everywhere, and integers fit where numbers
do. -/
def accepts : ScalarType → Value → Bool
  | _, .null => true
  | .any, _ => true
  | .bool, .bool _ => true
  | .int, .int _ => true
  | .float, .float _ => true
  | .float, .int _ => true
  | .string, .string _ => true
  | .uuid, .uuid _ => true
  | .dateTime, .dateTime _ => true
  | .decimal, .decimal _ => true
  | .decimal, .int _ => true
  | .json, .object _ => false
  | .json, _ => true
  | _, _ => false

end ScalarType

end EntityMapping
