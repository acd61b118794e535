import EntityMapping.MapperKey
import EntityMapping.Query

/-! # The journal of a pass

Everything that a mapping pass does, in the order in which it happens. The log, the loads and the
events of a pass are read from its journal.
-/

namespace EntityMapping

inductive LogLevel where
  | debug
  | info
  | warn
deriving DecidableEq, Repr, Inhabited

def LogLevel.text : LogLevel → String
  | .debug => "DEBUG"
  | .info => "INFO"
  | .warn => "WARN"

structure LogRecord where
  level : LogLevel
  text : String
deriving DecidableEq, Repr, Inhabited

def LogRecord.line (r : LogRecord) : String := s!"{r.level.text} {r.text}"

/-- A load of an entity's rows, all of them or those that a filter keeps. -/
structure LoadRecord where
  entity : String
  filter : Option KeyFilter
deriving DecidableEq, Inhabited

inductive Event where
  | transposed (tag text : String)
  | hooked (typeName text : String)
  | lookedUp (name : String) (keys : List Key)
  /-- A processor was given items: the key value of each, and the keys in it. -/
  | batched (name : String) (keys : List Value) (parts : List (List Key))
deriving Inhabited

inductive Note where
  | log (record : LogRecord)
  | event (e : Event)
deriving Inhabited

/-- One thing that happened. Requests are known by the order in which they were queued, hooks by
their place among the hooks of their mapper. -/
inductive Entry where
  | note (n : Note)
  | load (record : LoadRecord)
  | served (record : LoadRecord)
  | allocated (mapper : MapperKey) (key : Option Key) (object : ObjectRef)
  /-- The destination of an earlier row with this primary key was taken. -/
  | reused (mapper : MapperKey) (key : Key) (object : ObjectRef)
  | applied (object : ObjectRef) (item : String)
  | completed (object : ObjectRef)
  | assigned (object : ObjectRef) (field : String)
  | queued (request : Nat) (group : GroupKey) (object : ObjectRef)
  | wave (number : Nat)
  | resolving (group : GroupKey) (requests : List Nat)
  | delivered (request : Nat) (value : Value)
  | hooked (object : ObjectRef) (hook : Nat)
deriving Inhabited

structure Journal where
  entries : Array Entry
deriving Inhabited

namespace Journal

def empty : Journal := ⟨#[]⟩

def add (j : Journal) (e : Entry) : Journal := ⟨j.entries.push e⟩

def addNotes (j : Journal) (notes : List Note) : Journal :=
  notes.foldl (fun j n => j.add (.note n)) j

def toList (j : Journal) : List Entry := j.entries.toList

def logs (j : Journal) : List LogRecord :=
  j.toList.filterMap fun
    | .note (.log r) => some r
    | _ => none

def events (j : Journal) : List Event :=
  j.toList.filterMap fun
    | .note (.event e) => some e
    | _ => none

/-- The loads that the source was asked for. -/
def loads (j : Journal) : List LoadRecord :=
  j.toList.filterMap fun
    | .load r => some r
    | _ => none

/-- The loads that the source wrote down. -/
def served (j : Journal) : List LoadRecord :=
  j.toList.filterMap fun
    | .served r => some r
    | _ => none

@[simp] theorem toList_empty : empty.toList = [] := rfl

@[simp] theorem toList_add (j : Journal) (e : Entry) : (j.add e).toList = j.toList ++ [e] := by
  simp [add, toList]

@[simp] theorem toList_addNotes (j : Journal) (notes : List Note) :
    (j.addNotes notes).toList = j.toList ++ notes.map .note := by
  induction notes generalizing j with
  | nil => simp [addNotes]
  | cons n notes ih => simpa [addNotes] using ih (j.add (.note n))

end Journal

end EntityMapping
