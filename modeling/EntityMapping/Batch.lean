import EntityMapping.Action

/-! # Batch processors

A processor resolves the items of a group in one go. What it does is a script: it acts like any code of a
declaration, and it applies items, in an order of its own, and sees the result of each. Applying an
item takes it away, so no item can be applied twice.
-/

namespace EntityMapping

/-- What a processor does while `n` items are left. Applying item `i` gives it a value, and the items
behind it move up. -/
inductive Script : Nat → Type where
  | finish {n : Nat} : Script n
  | fail {n : Nat} (e : Error) : Script n
  | inspect {n : Nat} (next : Heap → Script n) : Script n
  | set {n : Nat} (object : ObjectRef) (field : String) (v : Value) (next : Script n) : Script n
  | create {n : Nat} (typeName : String) (fields : Dict String Value)
      (next : ObjectRef → Script n) : Script n
  | note {n : Nat} (entry : Note) (next : Script n) : Script n
  | apply {n : Nat} (i : Fin (n + 1)) (v : Value) (next : Except Error Unit → Script n) :
      Script (n + 1)

/-- A processor is known by the number of its instance. It is given the key value of each item: a key, or
a list of keys. -/
structure Processor (C : Type) where
  id : Nat
  name : String
  process : (keys : List Value) → C → Script keys.length

namespace Script

variable {α : Type}

def attempt {n : Nat} : Action α → (Except Error α → Script n) → Script n
  | .done a, next => next (.ok a)
  | .fail e, next => next (.error e)
  | .inspect more, next => .inspect fun h => attempt (more h) next
  | .set o field v more, next => .set o field v (attempt more next)
  | .create typeName fields more, next => .create typeName fields fun o => attempt (more o) next
  | .note entry more, next => .note entry (attempt more next)

/-- Performs an action and goes on with its value, or fails with its error. -/
def performing {n : Nat} (action : Action α) (next : α → Script n) : Script n :=
  attempt action fun
    | .ok a => next a
    | .error e => .fail e

/-- Applies an item and goes on, or fails with the error of its assignment. -/
def applying {n : Nat} (i : Fin (n + 1)) (v : Value) (next : Script n) : Script (n + 1) :=
  .apply i v fun
    | .ok _ => next
    | .error e => .fail e

def applyAll (value : Value → Value) : (keys : List Value) → Script keys.length
  | [] => .finish
  | key :: rest => applying 0 (value key) (applyAll value rest)

end Script

namespace Batch

def keysOf : Value → List Key
  | .list parts => parts.filterMap (·.asKey?)
  | v => v.asKey?.toList

def distinctKeys (keys : List Value) : List Key := Key.distinct (keys.flatMap keysOf)

/-- The value found for a key, null when there is none. -/
def lookUp (found : List (Key × Value)) (key : Value) : Value :=
  match key.asKey? with
  | some k => (Dict.lookup k found).getD .null
  | none => .null

/-- The value of an item: a list of keys is resolved key by key. -/
def resolved (found : List (Key × Value)) : Value → Value
  | .list parts => .list (parts.map (lookUp found))
  | key => lookUp found key

/-- The processor that looks up the keys of all items at once and applies every item in order. `load`
gives the values of the keys that have one. -/
def keyed {C : Type} (id : Nat) (name : String)
    (load : List Key → C → Action (List (Key × Value))) : Processor C where
  id := id
  name := name
  process keys ambient :=
    let wanted := distinctKeys keys
    let line := s!"{name}: resolving {wanted.length} keys for {keys.length} items"
    .note (.log ⟨.debug, line⟩) <|
      .performing (load wanted ambient) fun found => .applyAll (resolved found) keys

end Batch

end EntityMapping
