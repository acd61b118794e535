import EntityMapping.Batch

/-! # Resolvers

What a batch processor can do: look keys up in a table, or give every item a value and perhaps stop too
early.
-/

namespace EntityMapping

/-- How a processor resolves its items. -/
inductive Resolver where
  /-- Looks the keys up in a table; the lookup may fail. -/
  | keyed (table : List (Key × Value)) (failure : Option String)
  /-- Gives every item its own key. -/
  | echo
  /-- Gives every item its own key, the last item first. -/
  | reverse
  /-- Gives every item its place. -/
  | index
  | ambient
  | const (v : Value)
  /-- Leaves the items behind the first `count` unapplied. -/
  | partly (v : Value) (count : Nat)
  /-- Fails behind the first `count` items, if there are more. -/
  | fail (v : Value) (count : Nat)
deriving Inhabited

namespace Resolver

/-- Applies the items in order, by their places and keys. -/
def forwards (value : Nat → Value → Value) : (place : Nat) → (keys : List Value) →
    Script keys.length
  | _, [] => .finish
  | place, key :: rest => .applying 0 (value place key) (forwards value (place + 1) rest)

/-- Applies the items from the last one on, by their places. -/
def backwards (value : Nat → Value) : (n : Nat) → Script n
  | 0 => .finish
  | n + 1 => .applying (Fin.last n) (value n) (backwards value n)

/-- Applies the first items, and does something else if there are more. -/
def atMost (v : Value) (otherwise : {n : Nat} → Script n) : (count : Nat) → (n : Nat) → Script n
  | _, 0 => .finish
  | 0, _ + 1 => otherwise
  | count + 1, n + 1 => .applying 0 v (atMost v otherwise count n)

/-- Reports the keys that are looked up and looks them up. -/
def lookUp (name : String) (table : Dict Key Value) (failure : Option String) (keys : List Key) :
    Action (List (Key × Value)) := do
  Action.report (.lookedUp name keys)
  match failure with
  | some reason => .fail (.external reason)
  | none => return keys.filterMap fun k => (table.get? k).map fun v => (k, v)

/-- The script of every resolver but the keyed one. -/
def script (name : String) (keys : List Value) (ambient : Value) : Resolver → Script keys.length
  | .echo | .keyed .. => forwards (fun _ key => key) 0 keys
  | .reverse => backwards (fun place => (keys[place]?).getD .null) keys.length
  | .index => forwards (fun place _ => .int (.ofNat place)) 0 keys
  | .ambient => forwards (fun _ _ => ambient) 0 keys
  | .const v => forwards (fun _ _ => v) 0 keys
  | .partly v count => atMost v .finish count keys.length
  | .fail v count => atMost v (.fail (.external name)) count keys.length

/-- The processor that resolves in this way. All but the keyed one report what they are given. -/
def processor (r : Resolver) (id : Nat) (name : String) : Processor Value :=
  match r with
  | .keyed table failure =>
    Batch.keyed id name fun keys _ => lookUp name (Dict.ofList table) failure keys
  | r =>
    { id, name
      process := fun keys ambient =>
        .note (.event (.batched name keys (keys.map Batch.keysOf)))
          (script name keys ambient r) }

end Resolver

end EntityMapping
