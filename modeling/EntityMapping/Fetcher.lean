import EntityMapping.Journal
import EntityMapping.Plan.Commit

/-! # Fetchers

A fetcher loads what items left for later: rows by their primary key, or rows by a foreign key. Items
that ask for the same thing share one fetcher.
-/

namespace EntityMapping

structure EntityFetcher (C : Type) where
  plan : Plan C
  keyColumn : String

/-- Loads rows by foreign key and maps them. The foreign key is found in the slot `carrier`. -/
structure ReverseFetcher (C : Type) where
  plan : Plan C
  foreignKey : String
  carrier : Nat

structure Fetchers (C : Type) where
  entity : Dict MapperKey (EntityFetcher C)
  reverse : Dict ReverseKey (ReverseFetcher C)

abbrev LogM := ExceptT Error (StateM (List LogRecord))

namespace LogM

def record (level : LogLevel) (text : String) : LogM Unit :=
  modify fun records => records ++ [⟨level, text⟩]

end LogM

namespace Fetchers

variable {C : Type}

def empty : Fetchers C := ⟨.empty, .empty⟩

def requireEntity (f : Fetchers C) (key : MapperKey) : Except Error (EntityFetcher C) :=
  match f.entity.get? key with
  | some fetcher => .ok fetcher
  | none => .error (.fetcherMissing key.text)

def requireReverse (f : Fetchers C) (key : ReverseKey) : Except Error (ReverseFetcher C) :=
  match f.reverse.get? key with
  | some fetcher => .ok fetcher
  | none => .error (.fetcherMissing key.text)

/-- Makes sure that the entities of a mapper can be fetched. -/
def demandEntity (metadata : Metadata) (c : Commitments C) (f : Fetchers C) (key : MapperKey) :
    LogM (Fetchers C) :=
  if f.entity.contains key then return f
  else do
    let entity ← ofExcept (metadata.requireEntity key.source)
    let keyColumn ← ofExcept entity.singlePrimaryKey
    let plan ← ofExcept (c.requirePlan key)
    LogM.record .debug s!"refract: entity fetcher for {key.text} by {keyColumn}"
    return { f with entity := f.entity.set key ⟨plan, keyColumn⟩ }

/-- Makes sure that the rows on the other side of a relation can be fetched. -/
def demandReverse (c : Commitments C) (f : Fetchers C) (key : ReverseKey) (foreignKey : String) :
    LogM (Fetchers C) :=
  if f.reverse.contains key then return f
  else do
    let plan ← ofExcept (c.requirePlan key.mapper)
    let carrier ← ofExcept (plan.head.carrierSlot foreignKey)
    LogM.record .debug s!"refract: reverse fetcher for {key.text} by {foreignKey}"
    return { f with reverse := f.reverse.set key ⟨plan, foreignKey, carrier⟩ }

/-- Makes sure that what a route leaves for later can be fetched. -/
def demand (metadata : Metadata) (c : Commitments C) (f : Fetchers C) : Route C → LogM (Fetchers C)
  | .fetchOne _ _ target => f.demandEntity metadata c target
  | .fetchBack _ relation fetcher => f.demandReverse c fetcher relation.foreignKey
  | _ => return f

def demandAll (metadata : Metadata) (c : Commitments C) (f : Fetchers C) (plan : Plan C) :
    LogM (Fetchers C) :=
  plan.items.foldlM (fun f i => f.demand metadata c i.2) f

end Fetchers

end EntityMapping
