import EntityMapping.Action

/-! # Templates

A template is a value in which new objects may stand. Its objects are made whenever the template is
filled in, each once.
-/

namespace EntityMapping

inductive Template where
  | value (v : Value)
  | list (items : List Template)
  | row (fields : List (String × Template))
  | object (typeName : String) (fields : List (String × Template))
deriving Inhabited

namespace Template

mutual

def fill : Template → Action Value
  | .value v => return v
  | .list items => return .list (← fillItems items)
  | .row fields => return .row (Dict.ofList (← fillFields fields))
  | .object typeName fields => do
    let fields ← fillFields fields
    let o ← Action.create typeName (Dict.ofList fields) .done
    return .object o

def fillItems : List Template → Action (List Value)
  | [] => return []
  | t :: rest => do
    let v ← fill t
    let vs ← fillItems rest
    return v :: vs

def fillFields : List (String × Template) → Action (List (String × Value))
  | [] => return []
  | (name, t) :: rest => do
    let v ← fill t
    let vs ← fillFields rest
    return (name, v) :: vs

end

end Template

end EntityMapping
