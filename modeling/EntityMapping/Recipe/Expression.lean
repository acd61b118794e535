import EntityMapping.Row
import EntityMapping.Error

/-! # Expressions

What a computed accessor can be made of: parts of the row, the ambient value, constants, and texts and
lists of these.
-/

namespace EntityMapping

namespace Value

/-- The value as a part of a text: a string as it is, and anything else by its own text. -/
def plainText : Value → String
  | .string s => s
  | v => v.text

end Value

inductive Expression where
  | const (v : Value)
  | path (segments : List String)
  | ambient
  | fail (reason : String)
  /-- The key in some columns, null when they hold none. -/
  | key (columns : List String)
  | list (parts : List Expression)
  | format (parts : List Expression)
deriving Inhabited

namespace Expression

mutual

def evaluate : Expression → Row → Value → Except Error Value
  | .const v, _, _ => .ok v
  | .path segments, row, _ => .ok (row.path segments)
  | .ambient, _, given => .ok given
  | .fail reason, _, _ => .error (.external reason)
  | .key columns, row, _ =>
    match row.key columns with
    | some k => .ok k.toValue
    | none => .ok .null
  | .list parts, row, given => (evaluateAll parts row given).map .list
  | .format parts, row, given =>
    (evaluateAll parts row given).map fun vs => .string (String.join (vs.map Value.plainText))

def evaluateAll : List Expression → Row → Value → Except Error (List Value)
  | [], _, _ => .ok []
  | e :: rest, row, given => do
    let v ← evaluate e row given
    let vs ← evaluateAll rest row given
    return v :: vs

end

end Expression

end EntityMapping
