/-! # Identities of mappers and fetchers -/

namespace EntityMapping

/-- A mapper is known by its source entity and its destination type. -/
structure MapperKey where
  source : String
  destination : String
deriving DecidableEq, Repr, Inhabited

namespace MapperKey

def text (k : MapperKey) : String := s!"{k.source} -> {k.destination}"

instance : ToString MapperKey := ⟨text⟩

def compare (a b : MapperKey) : Ordering :=
  (Ord.compare a.source b.source).then (Ord.compare a.destination b.destination)

def sort (keys : List MapperKey) : List MapperKey := keys.mergeSort fun a b => (compare a b).isLE

end MapperKey

/-- A reverse fetcher is known by a relation and the mapper for the rows it leads to. -/
structure ReverseKey where
  entity : String
  relation : String
  mapper : MapperKey
deriving DecidableEq, Repr, Inhabited

namespace ReverseKey

def text (k : ReverseKey) : String := s!"{k.entity}.{k.relation} via {k.mapper.text}"

end ReverseKey

inductive GroupKey where
  | reverse (fetcher : ReverseKey)
  | entity (mapper : MapperKey)
  | batch (processor : Nat)
deriving DecidableEq, Repr, Inhabited

end EntityMapping
