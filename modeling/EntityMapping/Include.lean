import EntityMapping.Metadata

/-! # Includes

A query names the relations to load along with its rows, and for each of them the relations to load
along with its targets. A list of includes names a relation once: adding an include for a relation that
is there already adds what is nested in it.
-/

namespace EntityMapping

structure Include where
  relation : String
  nested : List Include
deriving Inhabited

namespace Include

def new (relation : String) : Include := ⟨relation, []⟩

/-- Changes what is nested in the first include of the relation. -/
def modifyNested (relation : String) (f : List Include → List Include) : List Include → List Include
  | [] => []
  | i :: rest =>
    if i.relation = relation then ⟨i.relation, f i.nested⟩ :: rest
    else i :: modifyNested relation f rest

mutual

def merge (into : List Include) : Include → List Include
  | ⟨relation, nested⟩ =>
    if into.any (·.relation = relation) then modifyNested relation (mergeAll · nested) into
    else into ++ [⟨relation, nested⟩]

def mergeAll (into : List Include) : List Include → List Include
  | [] => into
  | i :: rest => mergeAll (merge into i) rest

end

def andThen (i : Include) (nested : Include) : Include := ⟨i.relation, merge i.nested nested⟩

/-- The chain of includes along a path, with `nested` at its end. -/
def alongPath (nested : List Include) : List String → List Include
  | [] => nested
  | relation :: rest => [⟨relation, alongPath nested rest⟩]

mutual

def count : Include → Nat
  | ⟨_, nested⟩ => countAll nested + 1

def countAll : List Include → Nat
  | [] => 0
  | i :: rest => count i + countAll rest

end

mutual

def paths : Include → List (List String)
  | ⟨relation, nested⟩ => [relation] :: (pathsOf nested).map (relation :: ·)

def pathsOf : List Include → List (List String)
  | [] => []
  | i :: rest => paths i ++ pathsOf rest

end

end Include

end EntityMapping
