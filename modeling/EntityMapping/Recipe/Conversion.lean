import EntityMapping.Action
import EntityMapping.Heap.Json
import EntityMapping.Recipe.Expression

/-! # Conversions

What a transposer can be made of: steps that are done one after the other, each on the value of the one
before.
-/

namespace EntityMapping

namespace Value

/-- The number of elements, and -1 for what is no list. -/
def elementCount (v : Value) : Value :=
  match v.asList? with
  | some items => .int (.ofNat items.length)
  | none => .int (-1)

end Value

inductive ConversionStep where
  | const (v : Value)
  | fail (reason : String)
  | failIfNull (reason : String)
  | default (v : Value)
  | typeName
  | shown
  | count
  | first
  | wrap
  | field (name : String)
  | ambient
  /-- The value as a part of a text, with more text behind it. -/
  | suffix (text : String)
  | json
  | tag (label : String)
deriving Inhabited

namespace ConversionStep

def toJson (v : Value) : Action Value := do
  let heap ← Action.inspect .done
  let j ← Action.ofExcept (heap.toJson v)
  return .json j

def apply (ambient : Value) : ConversionStep → Value → Action Value
  | .const v, _ => return v
  | .fail reason, _ => .fail (.external reason)
  | .failIfNull reason, v => if v.isNull then .fail (.external reason) else return v
  | .default d, v => return if v.isNull then d else v
  | .typeName, v => return .string v.typeName
  | .shown, v => return .string v.text
  | .count, v => return v.elementCount
  | .first, v => return ((v.asList?.getD []).head?).getD .null
  | .wrap, v => return .list [v]
  | .field name, v =>
    match v.asObject? with
    | some o => Action.getField o name
    | none => return .null
  | .ambient, _ => return ambient
  | .suffix text, v => return .string (v.plainText ++ text)
  | .json, v => toJson v
  | .tag label, v => do
    Action.report (.transposed label v.text)
    return v

def applyAll (steps : List ConversionStep) (v : Value) (ambient : Value) : Action Value :=
  steps.foldlM (fun v step => step.apply ambient v) v

end ConversionStep

end EntityMapping
