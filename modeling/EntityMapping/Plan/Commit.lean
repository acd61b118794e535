import EntityMapping.Plan

/-! # Committing mappers

A mapper is committed when its items get their routes. The mappers that it embeds must be committed
before, since their plans become part of its own; the mappers that it fetches from need not be.
-/

namespace EntityMapping

/-- The mappers that are registered, and the plans of those that are committed. -/
structure Commitments (C : Type) where
  registered : List MapperKey
  plans : Dict MapperKey (Plan C)

namespace Commitments

variable {C : Type}

def requirePlan (c : Commitments C) (key : MapperKey) : Except Error (Plan C) :=
  match c.plans.get? key with
  | some plan => .ok plan
  | none => .error (.notCommitted key.text)

end Commitments

namespace Metadata

def entityAlong (m : Metadata) (e : Entity) : List String → Except Error Entity
  | [] => .ok e
  | segment :: rest => do
    let relation ← e.requireRelation segment
    let next ← m.requireEntity relation.target
    m.entityAlong next rest

end Metadata

structure Choice (C : Type) where
  route : Route C
  includes : List Include

namespace Item

variable {C : Type}

/-- The relations that reading a path needs. The last segment of a path to a scalar is a column. -/
def pathIncludes (path : List String) : SourceShape → List Include
  | .scalar => Include.alongPath [] path.dropLast
  | _ => Include.alongPath [] path

/-- The relations that the item's accessor needs. Nothing is known about computed values. -/
def readingIncludes (i : Item C) : List Include :=
  match i.source.segments? with
  | some path => pathIncludes path i.sourceShape
  | none => []

def component (i : Item C) (owner : MapperKey) : String := s!"{owner.text}.{i.destination}"

/-- The navigation that a fetched item follows: the path to the declaring entity, and the relation. -/
def navigation? (i : Item C) : Option (List String × String) :=
  i.source.segments?.bind fun path => path.getLast?.map fun relation => (path.dropLast, relation)

/-- A row that belongs to another one is fetched by the primary key of the other one. -/
def fetchOneRoute (i : Item C) (owner dependency : MapperKey) (metadata : Metadata)
    (path : List String) (relation : Relation) : Except Error (Route C) := do
  let target ← metadata.requireEntity relation.target
  let primaryKey ← target.singlePrimaryKey
  if primaryKey = relation.references then
    return .fetchOne path relation.foreignKey dependency
  else
    .error (.invalidConfiguration (i.component owner)
      "fetched navigations must reference the target's primary key")

/-- The route of a fetched item, by the side that holds the foreign key. -/
def fetchRoute (i : Item C) (owner dependency : MapperKey) (metadata : Metadata) :
    Except Error (Choice C) :=
  match i.navigation? with
  | none =>
    .error (.invalidConfiguration (i.component owner) "fetch style needs a navigation path")
  | some (path, segment) => do
    let root ← metadata.requireEntity owner.source
    let declaring ← metadata.entityAlong root path
    let relation ← declaring.requireRelation segment
    let route ←
      match relation.kind with
      | .belongsTo => i.fetchOneRoute owner dependency metadata path relation
      | .hasOne | .hasMany =>
        .ok (.fetchBack path relation ⟨declaring.name, relation.name, dependency⟩)
    return ⟨route, Include.alongPath [] path⟩

/-- The route of an item that is mapped in place. The relations of the embedded mapper are loaded at
the end of the path. -/
def embedRoute (i : Item C) (plan : Plan C) : Choice C :=
  let includes :=
    match i.source.segments? with
    | some path => Include.alongPath plan.includes path
    | none => []
  match i.destinationShape with
  | .list _ => ⟨.embedEach i.source plan, includes⟩
  | _ => ⟨.embed i.source plan, includes⟩

def mappedRoute (i : Item C) (owner dependency : MapperKey) (metadata : Metadata)
    (c : Commitments C) : Except Error (Choice C) :=
  if dependency ∈ c.registered then
    match i.style with
    | .fetch => i.fetchRoute owner dependency metadata
    | _ => (c.requirePlan dependency).map i.embedRoute
  else .error (.mapperNotFound dependency.text)

def choose (i : Item C) (owner : MapperKey) (metadata : Metadata) (c : Commitments C) :
    Except Error (Choice C) :=
  match i.style, i.dependency? with
  | .batch processor, _ => .ok ⟨.batch i.source processor, i.readingIncludes⟩
  | _, none => .ok ⟨.copy i.source, i.readingIncludes⟩
  | _, some dependency => i.mappedRoute owner dependency metadata c

end Item

/-! ## The layout of a transient -/

/-- What is laid out so far: the names of the schema, the items and the relations to load. -/
structure Layout (C : Type) where
  names : List String
  items : List (Assignment C × Route C)
  includes : List Include

namespace Layout

variable {C : Type}

def empty : Layout C := ⟨[], [], []⟩

def addName (owner : MapperKey) (names : List String) (name : String) : Except Error (List String) :=
  if name ∈ names then .error (.duplicateField owner.text name) else .ok (names ++ [name])

def addCarrier (owner : MapperKey) (l : Layout C) (column : String) : Except Error (Layout C) :=
  (addName owner l.names (carrierName column)).map fun names => { l with names }

def addItem (owner : MapperKey) (metadata : Metadata) (c : Commitments C) (l : Layout C)
    (i : Item C) : Except Error (Layout C) := do
  let choice ← i.choose owner metadata c
  let names ← addName owner l.names i.name
  return ⟨names, l.items ++ [(.ofItem i, choice.route)], Include.mergeAll l.includes choice.includes⟩

end Layout

namespace Mapper

variable {C : Type}

/-- The plan of a mapper: first the primary key, then the other foreign keys, and then the items. -/
def commit (m : Mapper C) (metadata : Metadata) (c : Commitments C) : Except Error (Plan C) := do
  if c.plans.contains m.key then .error (.alreadyCommitted m.key.text)
  else
    let entity ← metadata.requireEntity m.key.source
    let layout ← entity.primaryKey.foldlM (Layout.addCarrier m.key) Layout.empty
    let allKeys ← metadata.foreignKeysOn m.key.source
    let foreignKeys := allKeys.filter (· ∉ entity.primaryKey)
    let layout ← foreignKeys.foldlM (Layout.addCarrier m.key) layout
    let layout ← m.items.foldlM (Layout.addItem m.key metadata c) layout
    let head : PlanHead C := ⟨m.key, entity.primaryKey, foreignKeys, layout.includes, m.after⟩
    return .mk head layout.items

end Mapper

end EntityMapping
