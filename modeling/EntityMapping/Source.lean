import EntityMapping.Journal

/-! # Data sources

A source answers loads: the rows of an entity, or an error. Its answers may depend on the loads that it
was asked for before. Loads are made one after the other and leave their entries in a journal.
-/

namespace EntityMapping

/-- The answer to a load, with the loads and log records that the source writes down. -/
structure Reply where
  rows : Except Error (List Row)
  served : List LoadRecord
  logs : List LogRecord

structure DataSource where
  /-- Answers a load after the loads of `history`. -/
  reply : (history : List LoadRecord) → Entity → Option KeyFilter → Reply

/-- What loading adds to: the journal, and the number of loads. -/
structure Loading where
  journal : Journal
  loads : Nat
deriving Inhabited

/-- Work that loads rows. What was done before an error stays done. -/
abbrev LoadM := ExceptT Error (StateM Loading)

namespace DataSource

def load (source : DataSource) (e : Entity) (filter : Option KeyFilter) : LoadM (List Row) :=
  fun s =>
    let reply := source.reply s.journal.loads e filter
    let journal := s.journal.add (.load ⟨e.name, filter⟩)
    let journal := reply.served.foldl (fun j r => j.add (.served r)) journal
    (reply.rows, ⟨journal.addNotes (reply.logs.map .log), s.loads + 1⟩)

/-- The source that fails every load of one entity, before it writes down anything. -/
def failing (source : DataSource) (entity reason : String) : DataSource :=
  ⟨fun history e filter =>
    if e.name = entity then ⟨.error (.dataSource reason), [], []⟩
    else source.reply history e filter⟩

/-- The source that answers loads of some entities with all of their rows, whatever the filter. -/
def unfiltered (source : DataSource) (entities : List String) : DataSource :=
  ⟨fun history e filter => source.reply history e (if e.name ∈ entities then none else filter)⟩

end DataSource

end EntityMapping
