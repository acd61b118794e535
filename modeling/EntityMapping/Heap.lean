import EntityMapping.Value

/-! # Destination objects

Destination objects are shared: several fields can hold one object, and setting a field of it shows in
all of them. A heap holds the fields of every object under its identity.
-/

namespace EntityMapping

/-- The fields of the objects, the object with identity `i` at place `i`. -/
structure Heap where
  objects : Array (Dict String Value)
deriving Inhabited

namespace Heap

def empty : Heap := ⟨#[]⟩

def size (h : Heap) : Nat := h.objects.size

def fields (h : Heap) (o : ObjectRef) : Dict String Value := (h.objects[o.id]?).getD .empty

/-- The value of a field, null when it was never set. -/
def get (h : Heap) (o : ObjectRef) (field : String) : Value :=
  ((h.fields o).get? field).getD .null

def set (h : Heap) (o : ObjectRef) (field : String) (v : Value) : Heap :=
  ⟨h.objects.modify o.id (·.set field v)⟩

def create (h : Heap) (typeName : String) (fields : Dict String Value) : ObjectRef × Heap :=
  (⟨h.size, typeName⟩, ⟨h.objects.push fields⟩)

def contains (h : Heap) (o : ObjectRef) : Bool := o.id < h.size

/-! ## Fields after an operation -/

@[simp] theorem size_set (h : Heap) (o : ObjectRef) (field : String) (v : Value) :
    (h.set o field v).size = h.size := by
  simp [set, size]

@[simp] theorem size_create (h : Heap) (typeName : String) (fields : Dict String Value) :
    (h.create typeName fields).2.size = h.size + 1 := by
  simp [create, size]

theorem fields_create_self (h : Heap) (typeName : String) (fields : Dict String Value) :
    (h.create typeName fields).2.fields (h.create typeName fields).1 = fields := by
  simp [create, Heap.fields, size]

theorem fields_create_of_lt (h : Heap) (typeName : String) (fields : Dict String Value)
    {o : ObjectRef} (ho : o.id < h.size) :
    (h.create typeName fields).2.fields o = h.fields o := by
  have hne : o.id ≠ h.objects.size := Nat.ne_of_lt ho
  simp [create, Heap.fields, Array.getElem?_push, hne]

theorem fields_set (h : Heap) (o p : ObjectRef) (field : String) (v : Value) (ho : o.id < h.size) :
    (h.set o field v).fields p = if p.id = o.id then (h.fields p).set field v else h.fields p := by
  by_cases hp : p.id = o.id
  · have hlt : o.id < h.objects.size := ho
    simp [set, Heap.fields, hp, hlt, Array.getElem_modify]
  · have hp' : o.id ≠ p.id := fun same => hp same.symm
    simp [set, Heap.fields, Array.getElem?_modify, hp, hp']

end Heap

end EntityMapping
