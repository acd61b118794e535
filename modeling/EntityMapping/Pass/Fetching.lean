import EntityMapping.Pass.Mapping
import EntityMapping.Source.Join

/-! # Resolving requests

A group of requests is resolved by one query, or by one run of a processor, and then every request is
given its value.
-/

namespace EntityMapping

open PassM

variable {C : Type}

/-- Loads the rows of a query with all that a plan needs and maps them. All rows are projected before
the first is mapped. -/
def materialize (setting : Setting C) (plan : Plan C) (q : Query) :
    PassM C (List (Transient × ObjectRef)) := do
  let wanted := q.withIncludes plan.includes
  let rows ← ExceptT.adapt (.query plan.text)
    (loading (Source.fetch setting.source setting.metadata wanted))
  let transients ← ofExcept (rows.mapM fun row => plan.project row setting.ambient)
  transients.mapM fun t => do
    let o ← plan.map setting t
    return (t, o)

def deliver (setting : Setting C) (number : Nat) (d : Delivery C) (v : Value) : PassM C Unit := do
  record (.delivered number v)
  match d.chosen v with
  | some chosen => assign setting d.assignment chosen d.object
  | none => return ()

/-! ## Fetchers -/

/-- The destination of the first row with each primary key. -/
def firstByKey (head : PlanHead C) (mapped : List (Transient × ObjectRef)) : Dict Key ObjectRef :=
  mapped.foldl
    (fun found m =>
      match head.keyOf m.1 with
      | some k => if found.contains k then found else found.set k m.2
      | none => found) .empty

/-- The destinations of the rows with each key in a slot. -/
def groupBySlot (slot : Nat) (mapped : List (Transient × ObjectRef)) : Dict Key (List ObjectRef) :=
  mapped.foldl
    (fun groups m =>
      match (m.1.value slot).asKey? with
      | some k => groups.append k m.2
      | none => groups) .empty

namespace EntityFetcher

/-- Loads the rows with the requested primary keys. A key without a row is given null. -/
def resolve (setting : Setting C) (f : EntityFetcher C) (requests : List (KeyedRequest C)) :
    PassM C Unit := do
  let keys := Key.distinct (requests.map (·.key))
  debug s!"refract: fetching {keys.length} {f.plan.key.text} for {requests.length} requests"
  let q := (Query.all f.plan.key.source).filterIn f.keyColumn keys
  let found := firstByKey f.plan.head (← materialize setting f.plan q)
  requests.forM fun r =>
    let v := match found.get? r.key with
      | some o => .object o
      | none => .null
    deliver setting r.number r.delivery v

end EntityFetcher

namespace ReverseFetcher

/-- Loads the rows with the requested foreign keys. Every request is given a list, in the order of the
rows. -/
def resolve (setting : Setting C) (f : ReverseFetcher C) (requests : List (KeyedRequest C)) :
    PassM C Unit := do
  let keys := Key.distinct (requests.map (·.key))
  debug s!"refract: fetching {f.plan.key.text} by {f.foreignKey} for {keys.length} keys"
  let q := (Query.all f.plan.key.source).filterIn f.foreignKey keys
  let groups := groupBySlot f.carrier (← materialize setting f.plan q)
  requests.forM fun r =>
    let found := (groups.get? r.key).getD []
    deliver setting r.number r.delivery (.list (found.map .object))

end ReverseFetcher

/-! ## Processors -/

/-- Runs a script on the requests that are left, and tells how many are left at its end. -/
def runScript (setting : Setting C) : {n : Nat} → Script n → (pending : List (BatchRequest C)) →
    pending.length = n → PassM C Nat
  | n, .finish, _, _ => return n
  | _, .fail e, _, _ => throw e
  | _, .inspect next, pending, h => do
    let heap ← perform (.inspect .done)
    runScript setting (next heap) pending h
  | _, .set o field v next, pending, h => do
    perform (.setField o field v)
    runScript setting next pending h
  | _, .create typeName fields next, pending, h => do
    let o ← perform (.create typeName fields .done)
    runScript setting (next o) pending h
  | _, .note n next, pending, h => do
    record (.note n)
    runScript setting next pending h
  | _, .apply i v next, pending, h => do
    let r := pending[i.val]
    let result ← attempt (deliver setting r.number r.delivery v)
    runScript setting (next result) (pending.eraseIdx i.val) (by
      rw [List.length_eraseIdx]; have := i.isLt; split <;> omega)

/-- Hands a group of requests to their processor, which must apply every one of them. -/
def resolveBatch (setting : Setting C) (p : Processor C) (requests : List (BatchRequest C)) :
    PassM C Unit := do
  let script := p.process (requests.map (·.key)) setting.ambient
  let left ← runScript setting script requests (by simp)
  if left = 0 then return ()
  else throw (.batchIncomplete p.name requests.length (requests.length - left))

end EntityMapping
