import EntityMapping.Include
import EntityMapping.Row

/-! # Queries -/

namespace EntityMapping

structure KeyFilter where
  column : String
  keys : List Key
deriving DecidableEq, Inhabited

/-- A row matches by its key; a column that holds no key matches nothing. -/
def KeyFilter.matches (f : KeyFilter) (row : Row) : Bool :=
  match (row.value f.column).asKey? with
  | some k => k ∈ f.keys
  | none => false

/-- Asks for rows of an entity and for the relations to load along with them. -/
structure Query where
  entity : String
  filter : Option KeyFilter
  includes : List Include
deriving Inhabited

namespace Query

def all (entity : String) : Query := ⟨entity, none, []⟩

def filterIn (q : Query) (column : String) (keys : List Key) : Query :=
  { q with filter := some ⟨column, keys⟩ }

def including (q : Query) (i : Include) : Query := { q with includes := Include.merge q.includes i }

def withIncludes (q : Query) (includes : List Include) : Query :=
  { q with includes := Include.mergeAll q.includes includes }

/-- A filter without keys matches no row. -/
def matchesNothing (q : Query) : Bool :=
  match q.filter with
  | some f => f.keys.isEmpty
  | none => false

end Query

end EntityMapping
