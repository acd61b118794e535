import EntityMapping.Heap.Json

/-! # Summaries

A typed reading of a destination through its JSON: an identifier that must be there and a name that may
be missing. All other fields are passed over.
-/

namespace EntityMapping

structure Summary where
  id : Int64
  name : Option String
deriving DecidableEq, Repr, Inhabited

namespace Summary

def refuse {α : Type} (reason : String) : Except Error α := .error (.serialization reason)

def readId : Option Json → Except Error Int64
  | some (.int n) =>
    if Int64.minValue.toInt ≤ n ∧ n ≤ Int64.maxValue.toInt then .ok (.ofInt n)
    else refuse "id out of range"
  | some _ => refuse "id is no integer"
  | none => refuse "id is missing"

def readName : Option Json → Except Error (Option String)
  | some (.string s) => .ok (some s)
  | some .null | none => .ok none
  | some _ => refuse "name is no string"

def ofJson (j : Json) : Except Error Summary := do
  let id ← readId (j.member? "id")
  let name ← readName (j.member? "name")
  return ⟨id, name⟩

end Summary

def Heap.summary (h : Heap) (o : ObjectRef) : Except Error Summary :=
  (h.toJson (.object o)).bind Summary.ofJson

end EntityMapping
