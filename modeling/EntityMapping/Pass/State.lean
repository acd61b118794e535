import EntityMapping.Registry
import EntityMapping.Source

/-! # The state of a pass

A pass maps the rows of one query. While it maps, requests for rows and hooks are queued; it ends when
both queues are empty.
-/

namespace EntityMapping

structure Setting (C : Type) where
  /-- The value that the caller gives to all code of the declarations. -/
  ambient : C
  source : DataSource
  metadata : Metadata
  config : Config
  fetchers : Fetchers C

/-! ## Requests -/

structure KeyedRequest (C : Type) where
  number : Nat
  key : Key
  delivery : Delivery C

/-- Asks a processor for the value of a key, or of a list of keys. -/
structure BatchRequest (C : Type) where
  number : Nat
  key : Value
  delivery : Delivery C

inductive Request (C : Type) where
  | reverse (fetcher : ReverseKey) (request : KeyedRequest C)
  | entity (mapper : MapperKey) (request : KeyedRequest C)
  | batch (processor : Processor C) (request : BatchRequest C)

namespace Request

variable {C : Type}

/-- Requests of one group are resolved together. -/
def group : Request C → GroupKey
  | .reverse fetcher _ => .reverse fetcher
  | .entity mapper _ => .entity mapper
  | .batch processor _ => .batch processor.id

def number : Request C → Nat
  | .reverse _ r | .entity _ r => r.number
  | .batch _ r => r.number

def delivery : Request C → Delivery C
  | .reverse _ r | .entity _ r => r.delivery
  | .batch _ r => r.delivery

end Request

/-- A hook that waits for the end of a wave. -/
structure PendingHook (C : Type) where
  object : ObjectRef
  place : Nat
  hook : Hook C

/-! ## The state -/

structure Stats where
  waves : Nat
  fetchGroups : Nat
  loads : Nat
deriving DecidableEq, Repr, Inhabited

structure PassState (C : Type) where
  heap : Heap
  journal : Journal
  stats : Stats
  /-- The queued requests, the oldest first. -/
  requests : List (Request C)
  hooks : List (PendingHook C)
  /-- The destinations of this pass by mapper and primary key. -/
  cache : Dict (MapperKey × Key) ObjectRef
  /-- How many requests were queued so far. -/
  queued : Nat

def PassState.initial {C : Type} (heap : Heap) : PassState C :=
  ⟨heap, .empty, ⟨0, 0, 0⟩, [], [], .empty, 0⟩

/-- A step of a pass. What was done before an error stays done. -/
abbrev PassM (C : Type) := ExceptT Error (StateM (PassState C))

namespace PassM

variable {C α : Type}

def record (e : Entry) : PassM C Unit := modify fun s => { s with journal := s.journal.add e }

def debug (text : String) : PassM C Unit := record (.note (.log ⟨.debug, text⟩))

def perform (action : Action α) : PassM C α := fun s =>
  let outcome := action.run s.heap
  (outcome.result, { s with heap := outcome.heap, journal := s.journal.addNotes outcome.notes })

def loading (work : LoadM α) : PassM C α := fun s =>
  let (result, l) := work.run.run ⟨s.journal, s.stats.loads⟩
  (result, { s with journal := l.journal, stats := { s.stats with loads := l.loads } })

/-- Goes on with the result of a step, whether it failed or not. -/
def attempt (work : PassM C α) : PassM C (Except Error α) := ExceptT.lift work.run

def assign (setting : Setting C) (a : Assignment C) (v : Value) (o : ObjectRef) : PassM C Unit := do
  perform (a.assign v o setting.ambient)
  record (.assigned o a.field)

def enqueue (request : Nat → Request C) : PassM C Unit := do
  let s ← get
  let r := request s.queued
  set { s with requests := s.requests ++ [r], queued := s.queued + 1 }
  record (.queued r.number r.group r.delivery.object)

def defer (o : ObjectRef) (hooks : List (Hook C)) : PassM C Unit :=
  modify fun s => { s with hooks := s.hooks ++ hooks.zipIdx.map fun h => ⟨o, h.2, h.1⟩ }

/-! ## Shared destinations -/

/-- The destination that an earlier row with this primary key has, if destinations are shared. -/
def cached (setting : Setting C) (mapper : MapperKey) (key : Option Key) :
    PassM C (Option ObjectRef) := do
  match key with
  | none => return none
  | some k =>
    if setting.config.cacheDestinations then
      match (← get).cache.get? (mapper, k) with
      | none => return none
      | some o =>
        record (.reused mapper k o)
        return some o
    else return none

/-- Keeps the destination for later rows with this primary key, if destinations are shared. -/
def remember (setting : Setting C) (mapper : MapperKey) (key : Option Key) (o : ObjectRef) :
    PassM C Unit :=
  match key with
  | none => return ()
  | some k =>
    if setting.config.cacheDestinations then
      modify fun s => { s with cache := s.cache.set (mapper, k) o }
    else return ()

def allocate (setting : Setting C) (mapper : MapperKey) (key : Option Key)
    (fields : Dict String Value) : PassM C ObjectRef := do
  let o ← perform (.create mapper.destination fields .done)
  remember setting mapper key o
  record (.allocated mapper key o)
  return o

end PassM

end EntityMapping
