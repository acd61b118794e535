import EntityMapping.Source

/-! # Rows in memory

Tables of rows by entity, in order of insertion, and the loads that were served from them.
-/

namespace EntityMapping.Source

structure Memory where
  tables : Dict String (List Row)
  /-- The loads served so far, the oldest first. -/
  log : List LoadRecord
deriving Inhabited

namespace Memory

def empty : Memory := ⟨.empty, []⟩

def rows (m : Memory) (entity : String) : List Row := (m.tables.get? entity).getD []

def insert (m : Memory) (entity : String) (rows : List Row) : Memory :=
  { m with tables := m.tables.set entity (m.rows entity ++ rows) }

def ofTables (tables : List (String × List Row)) : Memory :=
  tables.foldl (fun m t => m.insert t.1 t.2) empty

def matching (m : Memory) (entity : String) (filter : Option KeyFilter) : List Row :=
  match filter with
  | none => m.rows entity
  | some f => (m.rows entity).filter f.matches

/-- The source that serves the tables. It writes down every load. -/
def source (m : Memory) : DataSource :=
  ⟨fun _ e filter => ⟨.ok (m.matching e.name filter), [⟨e.name, filter⟩], []⟩⟩

def loadsOf (m : Memory) (entity : String) : Nat := m.log.countP (·.entity = entity)

def recording (m : Memory) (served : List LoadRecord) : Memory := { m with log := m.log ++ served }

def clearLog (m : Memory) : Memory := { m with log := [] }

end Memory

end EntityMapping.Source
