import EntityMapping.Heap

/-! # Numbering an object graph

The objects that can be reached from some roots, each once: first the roots, then the objects of the
fields of each object in its turn, depth first inside lists and rows.
-/

namespace EntityMapping

namespace Value

mutual

def objects : Value → List ObjectRef
  | .object ref => [ref]
  | .list items => itemObjects items
  | .row ⟨fields⟩ => fieldObjects fields
  | _ => []

def itemObjects : List Value → List ObjectRef
  | [] => []
  | v :: rest => objects v ++ itemObjects rest

def fieldObjects : List (String × Value) → List ObjectRef
  | [] => []
  | (_, v) :: rest => objects v ++ fieldObjects rest

end

end Value

namespace Heap

def children (h : Heap) (o : ObjectRef) : List ObjectRef :=
  Value.fieldObjects (h.fields o).entries

def addNew (seen : List ObjectRef) (more : List ObjectRef) : List ObjectRef :=
  more.foldl (fun seen o => if o ∈ seen then seen else seen ++ [o]) seen

/-- Visits the objects from place `next` on and adds their children. -/
def visitFrom (h : Heap) : (turns : Nat) → (next : Nat) → List ObjectRef → List ObjectRef
  | 0, _, seen => seen
  | turns + 1, next, seen =>
    match seen[next]? with
    | none => seen
    | some o => visitFrom h turns (next + 1) (addNew seen (h.children o))

/-- The numbering from some roots: an object's number is its place. Every object gets one turn. -/
def numbering (h : Heap) (roots : List ObjectRef) : List ObjectRef :=
  h.visitFrom (h.size + roots.length) 0 (addNew [] roots)

end Heap

end EntityMapping
