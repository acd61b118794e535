import EntityMapping.Item

/-! # Assignments

The last step of an item: a value is transposed, checked against the type of the destination field and
stored in it.
-/

namespace EntityMapping

structure Assignment (C : Type) where
  item : String
  field : String
  /-- What the field holds before anything is assigned. -/
  initial : Value
  expected : DestinationShape
  transposer : Option (Transposer C)

namespace Assignment

variable {C : Type}

def ofItem (i : Item C) : Assignment C :=
  ⟨i.name, i.destination, i.destinationShape.default, i.expected, i.transposer⟩

/-- The value after the transposer, whose error is told with what it was about. -/
def transpose (a : Assignment C) (v : Value) (ambient : C) : Action Value :=
  match a.transposer with
  | some f =>
    (f v ambient).mapError fun cause => .transpose a.item v.typeName a.field a.expected.text cause
  | none => .done v

def store (a : Assignment C) (o : ObjectRef) (v : Value) : Action Unit :=
  if a.expected.accepts v then Action.setField o a.field v
  else .fail (.assignment a.item v.typeName a.field a.expected.text)

def assign (a : Assignment C) (v : Value) (o : ObjectRef) (ambient : C) : Action Unit :=
  (a.transpose v ambient).andThen (a.store o)

end Assignment

/-- An assignment that waits for a fetched value. -/
structure Delivery (C : Type) where
  assignment : Assignment C
  object : ObjectRef
  /-- Only the first element of a fetched list is assigned, and nothing when there is none. -/
  takesFirst : Bool

namespace Delivery

def chosen {C : Type} (d : Delivery C) (v : Value) : Option Value :=
  if d.takesFirst then
    match v with
    | .list items => items.head?
    | .null => none
    | other => some other
  else some v

end Delivery

end EntityMapping
