import EntityMapping.Recipe.Conversion
import EntityMapping.Recipe.Template

/-! # Hook steps

What a hook can be made of: steps that read and set fields of the destination and of objects in its
fields.
-/

namespace EntityMapping

inductive HookStep where
  | set (field : String) (value : Template)
  | copy (source target : String)
  /-- Sets `target` to a field of the object in `source`, or to `missing` if there is none. -/
  | lift (source field target : String) (missing : Template)
  | self (target : String)
  /-- Sets a field of every object in `source`, alone or in a list, to the destination. -/
  | link (source target : String)
  | count (source target : String)
  | ambient (target : String)
  | fail (reason : String)
  | event (field : String)
deriving Inhabited

namespace HookStep

def linked : Value → List ObjectRef
  | .object o => [o]
  | .list items => items.filterMap (·.asObject?)
  | _ => []

def apply (o : ObjectRef) (ambient : Value) : HookStep → Action Unit
  | .set field value => do
    let v ← value.fill
    Action.setField o field v
  | .copy source target => do
    let v ← Action.getField o source
    Action.setField o target v
  | .lift source field target missing => do
    match (← Action.getField o source).asObject? with
    | some related =>
      let v ← Action.getField related field
      Action.setField o target v
    | none =>
      let v ← missing.fill
      Action.setField o target v
  | .self target => Action.setField o target (.object o)
  | .link source target => do
    let v ← Action.getField o source
    (linked v).forM fun related => Action.setField related target (.object o)
  | .count source target => do
    let v ← Action.getField o source
    Action.setField o target v.elementCount
  | .ambient target => Action.setField o target ambient
  | .fail reason => .fail (.external reason)
  | .event field => do
    let v ← Action.getField o field
    Action.report (.hooked o.typeName v.text)

def applyAll (steps : List HookStep) (o : ObjectRef) (ambient : Value) : Action Unit :=
  steps.forM (apply o ambient)

end HookStep

end EntityMapping
