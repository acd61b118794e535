import EntityMapping.Pass.State

/-! # Mapping a transient

A transient becomes a destination: its slots are copied one item after the other, embedded transients
are mapped on the way, and what has to be fetched is queued. A row that has its destination already is
not mapped again.
-/

namespace EntityMapping

open PassM

variable {C : Type}

/-- The key in a value, if rows can be fetched by it. -/
def fetchKey (item : String) (v : Value) : Except Error Key :=
  match v.asKey? with
  | some k => if k.isFetchable then .ok k else .error (.invalidFetchKey item v.text)
  | none => .error (.invalidFetchKey item v.text)

/-- A processor is given a fetchable key, or a list of them. -/
def checkBatchKey (item : String) : Value → Except Error Unit
  | .list parts => parts.forM fun part => (fetchKey item part).map fun _ => ()
  | v => (fetchKey item v).map fun _ => ()

/-- Queues a request for one row. Null asks for nothing. -/
def requestOne (a : Assignment C) (target : MapperKey) (o : ObjectRef) : Value → PassM C Unit
  | .null => return ()
  | v => do
    let key ← ofExcept (fetchKey a.item v)
    enqueue fun number => .entity target ⟨number, key, ⟨a, o, false⟩⟩

/-- Queues a request for the rows on the other side of a relation. Null asks for nothing. -/
def requestBack (a : Assignment C) (relation : Relation) (fetcher : ReverseKey) (o : ObjectRef) :
    Value → PassM C Unit
  | .null => return ()
  | v => do
    let key ← ofExcept (fetchKey a.item v)
    enqueue fun number => .reverse fetcher ⟨number, key, ⟨a, o, relation.kind ≠ .hasMany⟩⟩

/-- Queues a request to a processor. Null asks for nothing. -/
def requestBatch (a : Assignment C) (processor : Processor C) (o : ObjectRef) :
    Value → PassM C Unit
  | .null => return ()
  | v => do
    ofExcept (checkBatchKey a.item v)
    enqueue fun number => .batch processor ⟨number, v, ⟨a, o, false⟩⟩

mutual

def Plan.map (setting : Setting C) : Plan C → Transient → PassM C ObjectRef
  | .mk head items, t => do
    let key := head.keyOf t
    match ← cached setting head.key key with
    | some o => return o
    | none =>
      let o ← allocate setting head.key key (Plan.mk head items).defaults
      fillItems setting items (t.drop head.carriers.length) o
      defer o head.after
      record (.completed o)
      return o

def fillItems (setting : Setting C) :
    List (Assignment C × Route C) → List Slot → ObjectRef → PassM C Unit
  | [], _, _ => return ()
  | (a, _) :: _, [], _ => throw (.projection a.item "transient has no slot for this item")
  | (a, route) :: rest, slot :: slots, o => do
    route.fill setting a slot o
    record (.applied o a.item)
    fillItems setting rest slots o

/-- Copies one slot into a destination, or queues the request that will. A list that was not there
leaves the field as it is. -/
def Route.fill (setting : Setting C) : Route C → Assignment C → Slot → ObjectRef → PassM C Unit
  | .copy _, a, slot, o => assign setting a slot.plain o
  | .batch _ processor, a, slot, o => requestBatch a processor o slot.plain
  | .fetchOne _ _ target, a, slot, o => requestOne a target o slot.plain
  | .fetchBack _ relation fetcher, a, slot, o => requestBack a relation fetcher o slot.plain
  | .embed _ plan, a, .embedded (some t), o => do
    let related ← plan.map setting t
    assign setting a (.object related) o
  | .embed _ _, a, .embedded none, o => assign setting a .null o
  | .embed _ _, a, _, _ => throw (.projection a.item "expected an embedded slot")
  | .embedEach _ plan, a, .sequence (some ts), o => do
    let related ← ts.mapM fun t => plan.map setting t
    assign setting a (.list (related.map .object)) o
  | .embedEach _ _, _, .sequence none, _ => return ()
  | .embedEach _ _, a, _, _ => throw (.projection a.item "expected a sequence slot")

end

end EntityMapping
