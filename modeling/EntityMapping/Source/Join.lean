import EntityMapping.Source

/-! # Loading rows with their relations

The rows of a query, each extended by one field for every include. A relation is joined for all rows by
a single load of the rows that hold one of their keys. A relation to many rows becomes a list, and any
other relation the first row or null. Rows without a key join nothing.
-/

namespace EntityMapping.Source

/-- The different keys that the rows hold in a column, in order of first occurrence. -/
def columnKeys (rows : List Row) (column : String) : List Key :=
  Key.distinct (rows.filterMap fun row => (row.value column).asKey?)

/-- The rows of each key in a column. Rows without a key belong to none. -/
def groupByColumn (rows : List Row) (column : String) : Dict Key (List Row) :=
  rows.foldl
    (fun groups row =>
      match (row.value column).asKey? with
      | some k => groups.append k row
      | none => groups) .empty

/-- The value of a relation, given the rows it leads to. -/
def relationValue (kind : RelationKind) (found : List Row) : Value :=
  match kind with
  | .hasMany => .list (found.map .row)
  | .belongsTo | .hasOne =>
    match found with
    | [] => .null
    | row :: _ => .row row

/-- The row with the relation's field, joined from groups of target rows. -/
def joinRow (relation : Relation) (field : String) (groups : Dict Key (List Row)) (row : Row) : Row :=
  let found :=
    match (row.value relation.localColumn).asKey? with
    | some k => (groups.get? k).getD []
    | none => []
  row.set field (relationValue relation.kind found)

/-- Loads the rows with one of the keys; no keys need no load. -/
def loadByKeys (source : DataSource) (target : Entity) (column : String) (keys : List Key) :
    LoadM (List Row) :=
  if keys.isEmpty then return [] else source.load target (some ⟨column, keys⟩)

mutual

/-- Adds the field of one include to the rows of an entity. -/
def attach (source : DataSource) (metadata : Metadata) (entity : Entity) (rows : List Row) :
    Include → LoadM (List Row)
  | ⟨field, nested⟩ => do
    let relation ← ofExcept (entity.requireRelation field)
    let target ← ofExcept (metadata.requireEntity relation.target)
    let keys := columnKeys rows relation.localColumn
    let related ← loadByKeys source target relation.remoteColumn keys
    let related ← attachAll source metadata target related nested
    let groups := groupByColumn related relation.remoteColumn
    return rows.map (joinRow relation field groups)

def attachAll (source : DataSource) (metadata : Metadata) (entity : Entity) (rows : List Row) :
    List Include → LoadM (List Row)
  | [] => return rows
  | i :: rest => do
    let rows ← attach source metadata entity rows i
    attachAll source metadata entity rows rest

end

/-- The rows of a query with everything it includes. A query that matches nothing loads nothing. -/
def fetch (source : DataSource) (metadata : Metadata) (q : Query) : LoadM (List Row) :=
  if q.matchesNothing then return []
  else do
    let entity ← ofExcept (metadata.requireEntity q.entity)
    let rows ← source.load entity q.filter
    attachAll source metadata entity rows q.includes

end EntityMapping.Source
