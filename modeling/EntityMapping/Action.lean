import EntityMapping.Error
import EntityMapping.Heap
import EntityMapping.Journal

/-! # Actions

Transposers, hooks and batch processors are code of the declarations. What such code does is an action:
it may look at the destination objects, set their fields, make new objects, leave notes and fail. An
action is data, so it always comes to an end.
-/

namespace EntityMapping

inductive Action (α : Type) : Type where
  | done (a : α)
  | fail (e : Error)
  | inspect (next : Heap → Action α)
  | set (object : ObjectRef) (field : String) (v : Value) (next : Action α)
  | create (typeName : String) (fields : Dict String Value) (next : ObjectRef → Action α)
  | note (n : Note) (next : Action α)

namespace Action

variable {α β : Type}

/-- The result of a run: a value or an error, the objects afterwards and the notes in order. -/
structure Outcome (α : Type) where
  result : Except Error α
  heap : Heap
  notes : List Note

def andThen : Action α → (α → Action β) → Action β
  | .done a, f => f a
  | .fail e, _ => .fail e
  | .inspect next, f => .inspect fun h => andThen (next h) f
  | .set o field v next, f => .set o field v (andThen next f)
  | .create typeName fields next, f => .create typeName fields fun o => andThen (next o) f
  | .note n next, f => .note n (andThen next f)

instance : Monad Action where
  pure := .done
  bind := andThen

def mapError (f : Error → Error) : Action α → Action α
  | .done a => .done a
  | .fail e => .fail (f e)
  | .inspect next => .inspect fun h => mapError f (next h)
  | .set o field v next => .set o field v (mapError f next)
  | .create typeName fields next => .create typeName fields fun o => mapError f (next o)
  | .note n next => .note n (mapError f next)

/-- Runs an action on the objects. What it did before it failed stays done. -/
def run : Action α → Heap → Outcome α
  | .done a, h => ⟨.ok a, h, []⟩
  | .fail e, h => ⟨.error e, h, []⟩
  | .inspect next, h => run (next h) h
  | .set o field v next, h => run next (h.set o field v)
  | .create typeName fields next, h =>
    run (next (h.create typeName fields).1) (h.create typeName fields).2
  | .note n next, h =>
    let rest := run next h
    { rest with notes := n :: rest.notes }

/-! ## Runs of composed actions -/

theorem run_andThen (x : Action α) (f : α → Action β) (h : Heap) :
    (x.andThen f).run h =
      match (x.run h).result with
      | .ok a =>
        let rest := (f a).run (x.run h).heap
        { rest with notes := (x.run h).notes ++ rest.notes }
      | .error e => ⟨.error e, (x.run h).heap, (x.run h).notes⟩ := by
  induction x generalizing h with
  | done a => rfl
  | fail e => rfl
  | inspect next ih => exact ih h h
  | set o field v next ih => exact ih _
  | create typeName fields next ih => exact ih _ _
  | note n next ih =>
    simp only [andThen, run, ih]
    split <;> rfl

theorem run_mapError (x : Action α) (f : Error → Error) (h : Heap) :
    (x.mapError f).run h = { x.run h with result := (x.run h).result.mapError f } := by
  induction x generalizing h with
  | done a => rfl
  | fail e => rfl
  | inspect next ih => exact ih h h
  | set o field v next ih => exact ih _
  | create typeName fields next ih => exact ih _ _
  | note n next ih => simp only [mapError, run, ih]

/-! ## Common actions -/

def setField (o : ObjectRef) (field : String) (v : Value) : Action Unit := .set o field v (.done ())

def getField (o : ObjectRef) (field : String) : Action Value := .inspect fun h => .done (h.get o field)

def report (e : Event) : Action Unit := .note (.event e) (.done ())

def log (level : LogLevel) (text : String) : Action Unit := .note (.log ⟨level, text⟩) (.done ())

def ofExcept : Except Error α → Action α
  | .ok a => .done a
  | .error e => .fail e

end Action

end EntityMapping
