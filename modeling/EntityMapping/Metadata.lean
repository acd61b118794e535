import EntityMapping.Dict
import EntityMapping.Error
import EntityMapping.ScalarType
import EntityMapping.Text.SnakeCase

/-! # Entities and their relations

What is known about source entities: their tables, columns and primary keys, and the relations that
lead from one entity to another along a foreign key.
-/

namespace EntityMapping

structure Column where
  name : String
  type : ScalarType
deriving DecidableEq, Repr, Inhabited

/-- How many target rows a relation leads to, and which side holds the foreign key. -/
inductive RelationKind where
  /-- The declaring entity holds the foreign key of one target row. -/
  | belongsTo
  /-- At most one target row holds a foreign key back. -/
  | hasOne
  /-- Any number of target rows hold a foreign key back. -/
  | hasMany
deriving DecidableEq, Repr, Inhabited

namespace RelationKind

def all : List RelationKind := [belongsTo, hasOne, hasMany]

def declaredName : RelationKind → String
  | .belongsTo => "belongs_to"
  | .hasOne => "has_one"
  | .hasMany => "has_many"

def ofDeclared? (name : String) : Option RelationKind := all.find? (·.declaredName = name)

end RelationKind

structure Relation where
  name : String
  target : String
  kind : RelationKind
  foreignKey : String
  /-- The column that the foreign key points at. -/
  references : String
deriving DecidableEq, Repr, Inhabited

namespace Relation

/-- The joined column of the declaring entity. -/
def localColumn (r : Relation) : String :=
  match r.kind with
  | .belongsTo => r.foreignKey
  | .hasOne | .hasMany => r.references

/-- The joined column of the target. -/
def remoteColumn (r : Relation) : String :=
  match r.kind with
  | .belongsTo => r.references
  | .hasOne | .hasMany => r.foreignKey

end Relation

structure Entity where
  name : String
  table : String
  primaryKey : List String
  columns : List Column
  relations : List Relation
deriving DecidableEq, Repr, Inhabited

namespace Entity

/-- The table is named after the entity. -/
def tableFor (name : String) : String := Text.snakeCase name

def new (name : String) : Entity := ⟨name, tableFor name, [], [], []⟩

def withTable (e : Entity) (table : String) : Entity := { e with table }

def withColumn (e : Entity) (name : String) (type : ScalarType) : Entity :=
  { e with columns := e.columns ++ [⟨name, type⟩] }

def withKey (e : Entity) (name : String) (type : ScalarType) : Entity :=
  { e.withColumn name type with primaryKey := e.primaryKey ++ [name] }

def withRelation (e : Entity) (r : Relation) : Entity := { e with relations := e.relations ++ [r] }

def column? (e : Entity) (name : String) : Option Column := e.columns.find? (·.name = name)

def relation? (e : Entity) (name : String) : Option Relation := e.relations.find? (·.name = name)

def requireRelation (e : Entity) (name : String) : Except Error Relation :=
  match e.relation? name with
  | some r => .ok r
  | none => .error (.relationNotFound e.name name)

/-- The column of a primary key that has just one. -/
def singlePrimaryKey (e : Entity) : Except Error String :=
  match e.primaryKey with
  | [column] => .ok column
  | [] => .error (.invalidConfiguration e.name "entity has no primary key")
  | _ => .error (.invalidConfiguration e.name "fetching requires a single-column primary key")

end Entity

/-- The known entities by name. A later entity replaces an earlier one of the same name. -/
structure Metadata where
  entities : Dict String Entity
deriving Inhabited

namespace Metadata

def empty : Metadata := ⟨.empty⟩

def register (m : Metadata) (e : Entity) : Metadata := ⟨m.entities.set e.name e⟩

def ofList (entities : List Entity) : Metadata := entities.foldl register empty

def entity? (m : Metadata) (name : String) : Option Entity := m.entities.get? name

def requireEntity (m : Metadata) (name : String) : Except Error Entity :=
  match m.entity? name with
  | some e => .ok e
  | none => .error (.unknownEntity name)

def sorted (m : Metadata) : List Entity :=
  m.entities.values.mergeSort fun a b => (compare a.name b.name).isLE

def primaryKey (m : Metadata) (entity : String) : Except Error (List String) :=
  (m.requireEntity entity).map (·.primaryKey)

def addColumn (columns : List String) (column : String) : List String :=
  if column ∈ columns then columns else columns ++ [column]

/-- The foreign keys that an entity's own relations store on it. -/
def ownForeignKeys (e : Entity) : List String :=
  (e.relations.filter (·.kind = .belongsTo)).map (·.foreignKey)

/-- The foreign keys that relations of `owner` expect on the entity named `target`. -/
def expectedForeignKeys (target : String) (owner : Entity) : List String :=
  (owner.relations.filter fun r => r.kind ≠ .belongsTo && r.target = target).map (·.foreignKey)

/-- The foreign-key columns of an entity, each once: those of its own relations first, then those that
relations of other entities point at, by the names of these entities. -/
def foreignKeysOn (m : Metadata) (entity : String) : Except Error (List String) :=
  (m.requireEntity entity).map fun e =>
    (ownForeignKeys e ++ m.sorted.flatMap (expectedForeignKeys e.name)).foldl addColumn []

def navigation (m : Metadata) (entity relation : String) : Except Error Relation :=
  (m.requireEntity entity).bind (·.requireRelation relation)

end Metadata

end EntityMapping
