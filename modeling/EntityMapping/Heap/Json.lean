import EntityMapping.Error
import EntityMapping.Heap

/-! # JSON of object graphs

An object is rendered in full wherever it stands, so an object that reaches itself has no JSON. While an
object is rendered, the objects around it form a path, and meeting one of them again is the error.
-/

namespace EntityMapping

namespace Value

mutual

/-- The JSON of a value, given the JSON of the objects in it. -/
def toJsonWith (render : ObjectRef → Except Error Json) : Value → Except Error Json
  | .null => .ok .null
  | .bool b => .ok (.bool b)
  | .int n => .ok (.int n.toInt)
  | .float x => .ok (Json.ofDouble x)
  | .string s => .ok (.string s)
  | .uuid u => .ok (.string u.text)
  | .dateTime t => .ok (.string t.text)
  | .decimal d => .ok (.string d.text)
  | .json j => .ok j
  | .list items => (itemsToJson render items).map .array
  | .row ⟨fields⟩ => (fieldsToJson render fields).map Json.ofMembers
  | .object ref => render ref

def itemsToJson (render : ObjectRef → Except Error Json) : List Value → Except Error (List Json)
  | [] => .ok []
  | v :: rest =>
    match toJsonWith render v with
    | .error e => .error e
    | .ok j => (itemsToJson render rest).map (j :: ·)

def fieldsToJson (render : ObjectRef → Except Error Json) :
    List (String × Value) → Except Error (List (String × Json))
  | [] => .ok []
  | (name, v) :: rest =>
    match toJsonWith render v with
    | .error e => .error e
    | .ok j => (fieldsToJson render rest).map ((name, j) :: ·)

end

end Value

namespace Heap

/-- The JSON of an object with the objects of `path` around it. The objects of a path differ, so a path
is no longer than the heap, and `depth` never runs out before the path repeats. -/
def objectToJson (h : Heap) : (depth : Nat) → (path : List Nat) → ObjectRef → Except Error Json
  | depth, path, o =>
    if o.id ∈ path then .error (.cyclicGraph o.typeName)
    else
      match depth with
      | 0 => .error (.cyclicGraph o.typeName)
      | depth + 1 =>
        (Value.fieldsToJson (h.objectToJson depth (o.id :: path)) (h.fields o).entries).map
          Json.ofMembers

def toJson (h : Heap) (v : Value) : Except Error Json :=
  v.toJsonWith (h.objectToJson (h.size + 2) [])

end Heap

end EntityMapping
