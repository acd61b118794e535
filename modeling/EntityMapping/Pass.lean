import EntityMapping.Heap.Json
import EntityMapping.Pass.Waves

/-! # Passes

A pass maps the rows of a query into destinations and ends when everything that was left for later is
in place.
-/

namespace EntityMapping

structure Mapped where
  roots : List ObjectRef
  stats : Stats
deriving Inhabited

def Mapped.toJson (m : Mapped) (heap : Heap) : Except Error Json :=
  (m.roots.mapM fun o => heap.toJson (.object o)).map .array

def Mapped.decode {α : Type} (m : Mapped) (heap : Heap) (read : Json → Except Error α) :
    Except Error (List α) :=
  m.roots.mapM fun o => (heap.toJson (.object o)).bind read

namespace Registry

variable {C : Type}

def setting (r : Registry C) (source : DataSource) (ambient : C) : Setting C :=
  ⟨ambient, source, r.metadata, r.config, r.fetchers⟩

def mapBy (r : Registry C) (plan : Plan C) (q : Query) (source : DataSource) (ambient : C) :
    PassM C Mapped := do
  let setting := r.setting source ambient
  let roots ← materialize setting plan q
  drain setting r.registrations.length
  let stats := (← get).stats
  PassM.debug
    s!"refract: mapped {roots.length} {plan.key.text} in {stats.waves} waves, {stats.loads} loads"
  return ⟨roots.map (·.2), stats⟩

def mapping (r : Registry C) (q : Query) (destination : String) (source : DataSource) (ambient : C) :
    PassM C Mapped := do
  let registration ← ofExcept (r.require ⟨q.entity, destination⟩)
  r.mapBy registration.plan q source ambient

/-- Runs a pass on the objects that are there already. -/
def map (r : Registry C) (q : Query) (destination : String) (source : DataSource) (ambient : C)
    (heap : Heap) : Except Error Mapped × PassState C :=
  (r.mapping q destination source ambient).run.run (.initial heap)

end Registry

end EntityMapping
