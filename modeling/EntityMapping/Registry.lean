import EntityMapping.Fetcher
import EntityMapping.Graph.Cycle
import EntityMapping.Graph.Sweep

/-! # Registries

A registry holds the mappers of an application, all of them committed. It is built from their
declarations: these are resolved, a cycle of mappers is refused, and then every mapper is committed
after the mappers that it needs.
-/

namespace EntityMapping

structure Config where
  /-- The most waves that a pass may take, if there is a limit. -/
  waveLimit : Option Nat := none
  /-- Rows with one primary key share one destination. -/
  cacheDestinations : Bool := true
deriving DecidableEq, Repr, Inhabited

structure Registration (C : Type) where
  mapper : Mapper C
  plan : Plan C

/-- The plans of committed mappers, by their keys. -/
def plansOf {C : Type} (registrations : List (Registration C)) : Dict MapperKey (Plan C) :=
  Dict.ofList (registrations.map fun r => (r.mapper.key, r.plan))

structure Registry (C : Type) where
  metadata : Metadata
  config : Config
  /-- The mappers in the order in which they were committed. -/
  registrations : List (Registration C)
  fetchers : Fetchers C

namespace Registry

variable {C : Type}

def order (r : Registry C) : List MapperKey := r.registrations.map (·.mapper.key)

def find? (r : Registry C) (key : MapperKey) : Option (Registration C) :=
  r.registrations.find? (·.mapper.key = key)

def require (r : Registry C) (key : MapperKey) : Except Error (Registration C) :=
  match r.find? key with
  | some registration => .ok registration
  | none => .error (.mapperNotFound key.text)

/-! ## Resolving declarations -/

/-- The keys of declared mappers. No key is declared twice, and every source entity is known. -/
def declaredKeys (metadata : Metadata) (declared : List (MapperDeclaration C)) :
    Except Error (List MapperKey) :=
  declared.foldlM
    (fun keys d =>
      if d.key ∈ keys then .error (.duplicateMapper d.key.text)
      else (metadata.requireEntity d.key.source).map fun _ => keys ++ [d.key]) []

/-- Resolves one more item. Its destination field must be new. -/
def resolveItem (owner : MapperKey) (metadata : Metadata) (registered : List MapperKey)
    (items : List (Item C)) (d : Declaration C) : Except Error (List (Item C)) :=
  if items.any (·.destination = d.destination) then
    .error (.duplicateField owner.text d.destination)
  else (d.resolve owner metadata registered).map fun i => items ++ [i]

def resolveMapper (metadata : Metadata) (registered : List MapperKey) (d : MapperDeclaration C) :
    Except Error (Mapper C) :=
  (d.items.foldlM (resolveItem d.key metadata registered) []).map fun items =>
    ⟨d.key, items, d.after⟩

def dependenciesIn (mappers : List (Mapper C)) (key : MapperKey) : List MapperKey :=
  match mappers.find? (·.key = key) with
  | some m => m.dependencies
  | none => []

/-- The mappers in the order of their keys. -/
def arrange (mappers : List (Mapper C)) (keys : List MapperKey) : List (Mapper C) :=
  keys.filterMap fun key => mappers.find? (·.key = key)

/-! ## Building -/

def refuseCycle (keys : List MapperKey) (dependencies : MapperKey → List MapperKey) :
    Except Error Unit :=
  match Graph.findCycle keys keys dependencies with
  | some path => .error (.mapperCycle (path.map (·.text)))
  | none => .ok ()

/-- The keys in the order of commitment, with a warning when they did not settle. -/
def commitOrder (keys : List MapperKey) (dependencies : MapperKey → List MapperKey) :
    LogM (List MapperKey) := do
  let (order, settled) := Graph.sweepSort keys dependencies
  if !settled then
    LogM.record .warn s!"sweep_sort did not settle after {Graph.sweepLimit keys} passes"
  return order

def commitNext (metadata : Metadata) (registered : List MapperKey)
    (committed : List (Registration C)) (m : Mapper C) : LogM (List (Registration C)) := do
  LogM.record .info s!"refract: committing {m.key.text}"
  let plan ← ofExcept (m.commit metadata ⟨registered, plansOf committed⟩)
  LogM.record .debug s!"refract: committed {plan.text}"
  return committed ++ [⟨m, plan⟩]

/-- What building has when every mapper is committed, and no fetcher is made. -/
structure Commission (C : Type) where
  keys : List MapperKey
  order : List MapperKey
  registrations : List (Registration C)

/-- Building up to the last mapper that it commits. -/
def commitAll (metadata : Metadata) (declared : List (MapperDeclaration C)) : LogM (Commission C) := do
  let keys ← ofExcept (declaredKeys metadata declared)
  let mappers ← ofExcept (declared.mapM (resolveMapper metadata keys))
  let dependencies := dependenciesIn mappers
  ofExcept (refuseCycle keys dependencies)
  let order ← commitOrder keys dependencies
  let registrations ← (arrange mappers order).foldlM (commitNext metadata keys) []
  return ⟨keys, order, registrations⟩

/-- Makes the fetchers of committed mappers. -/
def Commission.equip (c : Commission C) (metadata : Metadata) (config : Config) : LogM (Registry C) := do
  let fetchers ← c.registrations.foldlM
    (fun f r => f.demandAll metadata ⟨c.keys, plansOf c.registrations⟩ r.plan) Fetchers.empty
  LogM.record .debug
    s!"refract: registry ready with {c.order.length} mappers, {fetchers.entity.size} entity fetchers, {fetchers.reverse.size} reverse fetchers"
  return { metadata, config, registrations := c.registrations, fetchers }

def build (metadata : Metadata) (config : Config) (declared : List (MapperDeclaration C)) :
    LogM (Registry C) := do
  (← commitAll metadata declared).equip metadata config

end Registry

end EntityMapping
