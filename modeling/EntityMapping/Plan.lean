import EntityMapping.Assignment
import EntityMapping.Transient

/-! # Plans

A plan is a committed mapper: which slots its transients have, how each slot is filled from a row, and
how a slot gets into the destination. A mapper that embeds rows of another one holds its plan.
-/

namespace EntityMapping

structure PlanHead (C : Type) where
  key : MapperKey
  primaryKey : List String
  /-- The foreign-key columns that are not part of the primary key. -/
  foreignKeys : List String
  includes : List Include
  after : List (Hook C)

namespace PlanHead

variable {C : Type}

/-- The columns carried along: the primary key first. -/
def carriers (h : PlanHead C) : List String := h.primaryKey ++ h.foreignKeys

def carrierSlot (h : PlanHead C) (column : String) : Except Error Nat :=
  match h.carriers.idxOf? column with
  | some slot => .ok slot
  | none =>
    .error (.invalidConfiguration h.key.text s!"'{column}' is not a key column of {h.key.source}")

/-- The primary key in the first slots of a transient, if it is complete. -/
def keyOf (h : PlanHead C) (t : Transient) : Option Key :=
  match (List.range h.primaryKey.length).mapM fun slot => (t.value slot).asKey? with
  | some [] => none
  | some parts => some (Key.ofParts parts)
  | none => none

end PlanHead

mutual

inductive Plan (C : Type) : Type where
  | mk (head : PlanHead C) (items : List (Assignment C × Route C))

/-- The way of an item from the row to the destination. -/
inductive Route (C : Type) : Type where
  | copy (source : Accessor C)
  /-- A key, or a list of keys, for a processor. -/
  | batch (source : Accessor C) (processor : Processor C)
  /-- The foreign key of one row, which is fetched by its primary key. -/
  | fetchOne (path : List String) (foreignKey : String) (target : MapperKey)
  /-- The key that rows on the other side of a relation hold. -/
  | fetchBack (path : List String) (relation : Relation) (fetcher : ReverseKey)
  | embed (source : Accessor C) (plan : Plan C)
  | embedEach (source : Accessor C) (plan : Plan C)

end

namespace Plan

variable {C : Type}

def head : Plan C → PlanHead C
  | .mk head _ => head

def items : Plan C → List (Assignment C × Route C)
  | .mk _ items => items

def key (p : Plan C) : MapperKey := p.head.key

def includes (p : Plan C) : List Include := p.head.includes

def defaults (p : Plan C) : Dict String Value :=
  Dict.ofList (p.items.map fun i => (i.1.field, i.1.initial))

end Plan

namespace Route

variable {C : Type}

def fieldKind : Route C → FieldKind
  | .embed _ plan => .embedded plan.key
  | .embedEach _ plan => .sequence plan.key
  | _ => .scalar

end Route

namespace Plan

variable {C : Type}

/-- The fields of the plan's transients: the carriers and then the items. -/
def schema (p : Plan C) : List SchemaField :=
  p.head.carriers.map (fun column => ⟨carrierName column, .carrier⟩) ++
    p.items.map fun i => ⟨i.1.item, i.2.fieldKind⟩

end Plan

/-! ## Projection -/

variable {C : Type}

mutual

/-- Projects a row: one slot for every field of the schema. -/
def Plan.project : Plan C → Row → C → Except Error Transient
  | .mk head items, row, ambient =>
    (projectItems items row ambient).map fun slots =>
      head.carriers.map (fun column => .value (row.value column)) ++ slots

def projectItems : List (Assignment C × Route C) → Row → C → Except Error (List Slot)
  | [], _, _ => .ok []
  | (assignment, route) :: rest, row, ambient => do
    let slot ← route.project assignment.item row ambient
    let slots ← projectItems rest row ambient
    return slot :: slots

/-- Fills the slot of the item named `item`. Only a row can be embedded, and only a list of rows can be
embedded one by one; null embeds nothing. -/
def Route.project : Route C → String → Row → C → Except Error Slot
  | .copy source, _, row, ambient => (source.evaluate row ambient).map .value
  | .batch source _, _, row, ambient => (source.evaluate row ambient).map .value
  | .fetchOne path foreignKey _, _, row, _ => .ok (.value (row.columnAt path foreignKey))
  | .fetchBack path relation _, _, row, _ => .ok (.value (row.columnAt path relation.references))
  | .embed source plan, item, row, ambient => do
    match ← source.evaluate row ambient with
    | .null => return .embedded none
    | .row related =>
      let transient ← plan.project related ambient
      return .embedded (some transient)
    | other => .error (.projection item s!"expected a row, found {other.typeName}")
  | .embedEach source plan, item, row, ambient => do
    match ← source.evaluate row ambient with
    | .null => return .sequence none
    | .list elements =>
      let transients ← elements.mapM fun element =>
        match element with
        | .row related => plan.project related ambient
        | other => .error (.projection item s!"expected a row element, found {other.typeName}")
      return .sequence (some transients)
    | other => .error (.projection item s!"expected a list of rows, found {other.typeName}")

end

/-! ## Text -/

def columnPath (path : List String) (column : String) : String :=
  String.intercalate "." (path ++ [column])

mutual

def Plan.text : Plan C → String
  | .mk head items =>
    let carried := head.carriers.map fun column => s!"{carrierName column}: {column}"
    let fields := String.intercalate ", " (carried ++ itemTexts items)
    s!"{head.key.text} \x7b {fields} \x7d"

def itemTexts : List (Assignment C × Route C) → List String
  | [] => []
  | (assignment, route) :: rest => s!"{assignment.item}: {route.text}" :: itemTexts rest

def Route.text : Route C → String
  | .copy source => source.text
  | .batch source processor => s!"batch {processor.name}({source.text})"
  | .fetchOne path foreignKey target =>
    s!"fetch {target.text}({columnPath path foreignKey})"
  | .fetchBack path relation fetcher =>
    s!"fetch {fetcher.mapper.text} by {relation.foreignKey}({columnPath path relation.references})"
  | .embed source plan => s!"{source.text} => {plan.text}"
  | .embedEach source plan => s!"{source.text}.map({plan.text})"

end

end EntityMapping
