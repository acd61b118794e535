import EntityMapping.Pass.Fetching

/-! # Waves

What is queued while rows are mapped is worked off in waves. A wave takes everything that is queued,
resolves its requests group by group, and then runs its hooks; what is queued meanwhile is left for the
next wave.
-/

namespace EntityMapping

open PassM

variable {C : Type}

/-! ## Groups -/

/-- The requests of a wave by what resolves them, in order of first occurrence. -/
structure Groups (C : Type) where
  reverse : Dict ReverseKey (List (KeyedRequest C))
  entity : Dict MapperKey (List (KeyedRequest C))
  batch : Dict Nat (Processor C × List (BatchRequest C))

namespace Groups

def empty : Groups C := ⟨.empty, .empty, .empty⟩

def add (g : Groups C) : Request C → Groups C
  | .reverse fetcher r => { g with reverse := g.reverse.append fetcher r }
  | .entity mapper r => { g with entity := g.entity.append mapper r }
  | .batch processor r =>
    match g.batch.get? processor.id with
    | some (first, requests) =>
      { g with batch := g.batch.set processor.id (first, requests ++ [r]) }
    | none => { g with batch := g.batch.set processor.id (processor, [r]) }

def ofList (requests : List (Request C)) : Groups C := requests.foldl add empty

def size (g : Groups C) : Nat := g.reverse.size + g.entity.size + g.batch.size

end Groups

/-! ## A wave -/

/-- Counts a group and notes that it is resolved now. -/
def beginGroup (group : GroupKey) (numbers : List Nat) : PassM C Unit := do
  modify fun s => { s with stats := { s.stats with fetchGroups := s.stats.fetchGroups + 1 } }
  record (.resolving group numbers)

def resolveReverse (setting : Setting C) (key : ReverseKey) (requests : List (KeyedRequest C)) :
    PassM C Unit := do
  beginGroup (.reverse key) (requests.map (·.number))
  let fetcher ← ofExcept (setting.fetchers.requireReverse key)
  fetcher.resolve setting requests

def resolveEntity (setting : Setting C) (key : MapperKey) (requests : List (KeyedRequest C)) :
    PassM C Unit := do
  beginGroup (.entity key) (requests.map (·.number))
  let fetcher ← ofExcept (setting.fetchers.requireEntity key)
  fetcher.resolve setting requests

/-- Resolves every group: the rows on the other side of relations first, then single rows, and then the
processors' groups. -/
def resolveGroups (setting : Setting C) (g : Groups C) : PassM C Unit := do
  g.reverse.entries.forM fun (key, requests) => resolveReverse setting key requests
  g.entity.entries.forM fun (key, requests) => resolveEntity setting key requests
  g.batch.entries.forM fun (id, processor, requests) => do
    beginGroup (.batch id) (requests.map (·.number))
    resolveBatch setting processor requests

def runHook (setting : Setting C) (h : PendingHook C) : PassM C Unit := do
  record (.hooked h.object h.place)
  perform (h.hook h.object setting.ambient)

/-- Starts the next wave, unless it is one too many. -/
def beginWave (setting : Setting C) : PassM C Nat := do
  let wave := (← get).stats.waves + 1
  modify fun s => { s with stats := { s.stats with waves := wave } }
  match setting.config.waveLimit with
  | some limit => if limit < wave then throw (.waveLimitExceeded limit)
  | none => pure ()
  record (.wave wave)
  return wave

def runWave (setting : Setting C) (requests : List (Request C)) (hooks : List (PendingHook C)) :
    PassM C Unit := do
  let wave ← beginWave setting
  let groups := Groups.ofList requests
  debug s!"refract: wave {wave}: {requests.length} requests in {groups.size} groups, {hooks.length} hooks"
  resolveGroups setting groups
  hooks.forM (runHook setting)

def takeQueued : PassM C (List (Request C) × List (PendingHook C)) := fun s =>
  (.ok (s.requests, s.hooks), { s with requests := [], hooks := [] })

/-- Runs waves until nothing is queued. A wave queues requests only for mappers that are needed by those
it mapped, so a pass takes no more waves than there are mappers, and `waves` never runs out. -/
def drain (setting : Setting C) : (waves : Nat) → PassM C Unit
  | 0 => do
    let s ← get
    if s.requests.isEmpty && s.hooks.isEmpty then return ()
    else throw (.waveLimitExceeded s.stats.waves)
  | waves + 1 => do
    let (requests, hooks) ← takeQueued
    if requests.isEmpty && hooks.isEmpty then return ()
    else do
      runWave setting requests hooks
      drain setting waves

end EntityMapping
