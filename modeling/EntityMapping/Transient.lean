import EntityMapping.MapperKey
import EntityMapping.Value

/-! # Transients

A source row as a projection sees it: one slot for every field of its schema. Key columns are carried
along in fields of their own, so that rows can be told apart and joined after they were projected.
-/

namespace EntityMapping

inductive FieldKind where
  | carrier
  | scalar
  | embedded (mapper : MapperKey)
  | sequence (mapper : MapperKey)
deriving DecidableEq, Repr, Inhabited

structure SchemaField where
  name : String
  kind : FieldKind
deriving DecidableEq, Repr, Inhabited

def carrierName (column : String) : String := "__" ++ column

inductive Slot where
  | value (v : Value)
  /-- Nothing when the navigation led to no row. -/
  | embedded (transient : Option (List Slot))
  /-- Nothing when there was no list. -/
  | sequence (transients : Option (List (List Slot)))
deriving Inhabited

/-- The slots of a projected row, in the order of the schema. -/
abbrev Transient := List Slot

/-- The plain value of a slot, null when the slot is nested. -/
def Slot.plain : Slot → Value
  | .value v => v
  | _ => .null

/-- The plain value at a place, null when there is none. -/
def Transient.value (t : Transient) (place : Nat) : Value :=
  match t[place]? with
  | some slot => slot.plain
  | none => .null

end EntityMapping
