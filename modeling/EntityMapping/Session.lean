import EntityMapping.Pass
import EntityMapping.Source.Database
import EntityMapping.Source.Memory

/-! # Sessions

A session is a registry at work: the rows that its source serves and the objects that were made so far.
Every step tells its result and leaves a journal.
-/

namespace EntityMapping

inductive Store where
  | memory (memory : Source.Memory)
  | tables (database : Source.Database)

namespace Store

/-- Keeps the rows of the named entities in memory, or in tables if these can keep them. -/
def ofTables? (inDatabase : Bool) (metadata : Metadata) (tables : List (String × List Row)) :
    Option Store :=
  if inDatabase then (Source.Database.ofTables? metadata tables).map .tables
  else some (.memory (.ofTables tables))

def recording (s : Store) (served : List LoadRecord) : Store :=
  match s with
  | .memory m => .memory (m.recording served)
  | .tables db => .tables (db.recording served)

def modifyMemory (s : Store) (f : Source.Memory → Source.Memory) : Store :=
  match s with
  | .memory m => .memory (f m)
  | .tables db => .tables db

def loadsOf (s : Store) (entity : String) : Nat :=
  match s with
  | .memory m => m.loadsOf entity
  | .tables _ => 0

end Store

structure Session (C : Type) where
  registry : Registry C
  store : Store
  /-- An entity whose loads from memory fail, and the reason. -/
  failing : Option (String × String)
  unfiltered : List String
  heap : Heap

structure Report (α : Type) where
  result : Except Error α
  journal : Journal

namespace Session

variable {C : Type}

def source (s : Session C) : DataSource :=
  match s.store with
  | .tables db => db.source
  | .memory m =>
    let source := m.source.unfiltered s.unfiltered
    match s.failing with
    | some (entity, reason) => source.failing entity reason
    | none => source

def map (s : Session C) (q : Query) (destination : String) (ambient : C) :
    Report Mapped × Session C :=
  let (result, state) := s.registry.map q destination s.source ambient s.heap
  (⟨result, state.journal⟩,
    { s with heap := state.heap, store := s.store.recording state.journal.served })

def fetch (s : Session C) (q : Query) : Report (List Row) × Session C :=
  let (result, loading) :=
    (Source.fetch s.source s.registry.metadata q).run.run ⟨.empty, 0⟩
  (⟨result, loading.journal⟩,
    { s with store := s.store.recording loading.journal.served })

def project (s : Session C) (key : MapperKey) (row : Row) (ambient : C) : Except Error Transient :=
  (s.registry.require key).bind fun registration => registration.plan.project row ambient

end Session

end EntityMapping
