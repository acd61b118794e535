import EntityMapping.Proofs.Building
import EntityMapping.Proofs.Pass.Settings

/-! # Supplied routes

The routes of a registry leave rows to fetchers, and each of them demands the fetcher that it needs. If all that
is demanded can be made, demanding succeeds, and in whatever order it is done there are the same fetchers then.
-/

namespace EntityMapping

variable {C : Type}

/-! ## Demands on a dictionary -/

namespace Dict

variable {κ α : Type} [DecidableEq κ]

/-- Writes only where there is nothing yet. -/
def setNew (d : Dict κ α) (k : κ) (v : α) : Dict κ α := if d.contains k then d else d.set k v

theorem get?_setNew (d : Dict κ α) (k k' : κ) (v : α) :
    (d.setNew k v).get? k' = if k = k' then some ((d.get? k).getD v) else d.get? k' := by
  unfold setNew
  split
  · rename_i hthere
    obtain ⟨v', hv'⟩ := Option.isSome_iff_exists.mp hthere
    split
    · rename_i heq
      rw [hv', ← heq, hv', Option.getD_some]
    · rfl
  · rename_i hnew
    rw [get?_set, Option.not_isSome_iff_eq_none.mp hnew, Option.getD_none]

/-- There is a value for every demand, the one that was made for it, and for nothing else. -/
structure Meets (d : Dict κ α) (demands : List (κ × Except Error α)) : Prop where
  there : ∀ k made, (k, made) ∈ demands → ∃ v, made = .ok v ∧ d.get? k = some v
  only : ∀ k, (d.get? k).isSome → ∃ made, (k, made) ∈ demands

namespace Meets

variable {d d' : Dict κ α} {demands : List (κ × Except Error α)}

theorem empty : (Dict.empty : Dict κ α).Meets [] where
  there _ _ h := absurd h List.not_mem_nil
  only _ h := by cases h

theorem congr (h : d.Meets demands) {demands' : List (κ × Except Error α)}
    (hsame : ∀ demand, demand ∈ demands ↔ demand ∈ demands') : d.Meets demands' where
  there k made hmade := h.there k made ((hsame _).mpr hmade)
  only k hsome := by
    obtain ⟨made, hmade⟩ := h.only k hsome
    exact ⟨made, (hsame _).mp hmade⟩

theorem get?_of_meets (h : d.Meets demands) (h' : d'.Meets demands) {k : κ} {v : α} (hget : d.get? k = some v) :
    d'.get? k = some v := by
  obtain ⟨made, hmade⟩ := h.only k (by simp [hget])
  obtain ⟨v₁, hv₁, hget₁⟩ := h.there k made hmade
  obtain ⟨v₂, hv₂, hget₂⟩ := h'.there k made hmade
  obtain rfl := Option.some.inj (hget.symm.trans hget₁)
  obtain rfl := Except.ok.inj (hv₁.symm.trans hv₂)
  exact hget₂

theorem get?_eq (h : d.Meets demands) (h' : d'.Meets demands) (k : κ) : d.get? k = d'.get? k :=
  Option.ext fun _ => ⟨h.get?_of_meets h', h'.get?_of_meets h⟩

theorem setNew (h : d.Meets demands) {k : κ} {v : α} (hagree : ∀ made, (k, made) ∈ demands → made = .ok v) :
    (d.setNew k v).Meets (demands ++ [(k, .ok v)]) := by
  -- A value that is there already is the one that was demanded.
  have hvalue : (d.get? k).getD v = v := by
    cases hget : d.get? k with
    | none => rfl
    | some v' =>
      obtain ⟨made, hmade⟩ := h.only k (by simp [hget])
      obtain ⟨v₁, hv₁, hget₁⟩ := h.there k made hmade
      obtain rfl := Option.some.inj (hget.symm.trans hget₁)
      exact Except.ok.inj (hv₁.symm.trans (hagree made hmade))
  constructor
  · intro k' made hmade
    rw [get?_setNew, hvalue]
    rcases List.mem_append.mp hmade with hmade | hmade
    · split
      · rename_i heq
        exact ⟨v, hagree made (heq ▸ hmade), rfl⟩
      · exact h.there k' made hmade
    · obtain ⟨rfl, rfl⟩ := Prod.mk.inj (List.mem_singleton.mp hmade)
      exact ⟨v, rfl, if_pos rfl⟩
  · intro k' hsome
    rw [get?_setNew] at hsome
    split at hsome
    · rename_i heq
      exact ⟨.ok v, by simp [heq]⟩
    · obtain ⟨made, hmade⟩ := h.only k' hsome
      exact ⟨made, List.mem_append_left _ hmade⟩

end Meets

end Dict

/-! ## Demands of routes -/

namespace Fetchers

/-- The fetcher of a mapper's entities. -/
def entityFor (metadata : Metadata) (plans : Dict MapperKey (Plan C)) (key : MapperKey) :
    Except Error (EntityFetcher C) := do
  let entity ← metadata.requireEntity key.source
  let keyColumn ← entity.singlePrimaryKey
  let plan ← Commitments.requirePlan ⟨[], plans⟩ key
  return ⟨plan, keyColumn⟩

/-- The fetcher of the rows that hold a foreign key. -/
def reverseFor (plans : Dict MapperKey (Plan C)) (key : ReverseKey) (foreignKey : String) :
    Except Error (ReverseFetcher C) := do
  let plan ← Commitments.requirePlan ⟨[], plans⟩ key.mapper
  let carrier ← plan.head.carrierSlot foreignKey
  return ⟨plan, foreignKey, carrier⟩

end Fetchers

namespace Route

def entityDemand? (metadata : Metadata) (plans : Dict MapperKey (Plan C)) :
    Route C → Option (MapperKey × Except Error (EntityFetcher C))
  | .fetchOne _ _ target => some (target, Fetchers.entityFor metadata plans target)
  | _ => none

def reverseDemand? (plans : Dict MapperKey (Plan C)) :
    Route C → Option (ReverseKey × Except Error (ReverseFetcher C))
  | .fetchBack _ relation key => some (key, Fetchers.reverseFor plans key relation.foreignKey)
  | _ => none

/-- The fetcher that a route leaves rows for can be made. -/
def Suppliable (metadata : Metadata) (plans : Dict MapperKey (Plan C)) : Route C → Prop
  | .fetchOne _ _ target => ∃ fetcher, Fetchers.entityFor metadata plans target = .ok fetcher
  | .fetchBack _ relation key => ∃ fetcher, Fetchers.reverseFor plans key relation.foreignKey = .ok fetcher
  | _ => True

section

variable {plans plans' : Dict MapperKey (Plan C)} (h : ∀ key, plans.get? key = plans'.get? key)
include h

theorem entityDemand?_congr (metadata : Metadata) (route : Route C) :
    route.entityDemand? metadata plans = route.entityDemand? metadata plans' := by
  unfold entityDemand? Fetchers.entityFor Commitments.requirePlan
  simp only [h]

theorem reverseDemand?_congr (route : Route C) : route.reverseDemand? plans = route.reverseDemand? plans' := by
  unfold reverseDemand? Fetchers.reverseFor Commitments.requirePlan
  simp only [h]

theorem Suppliable.congr {metadata : Metadata} {route : Route C} (hroute : route.Suppliable metadata plans) :
    route.Suppliable metadata plans' := by
  unfold Suppliable Fetchers.entityFor Fetchers.reverseFor Commitments.requirePlan at *
  simpa only [h] using hroute

end

end Route

theorem eq_of_entityDemand {metadata : Metadata} {plans : Dict MapperKey (Plan C)} {routes : List (Route C)}
    {key : MapperKey} {made : Except Error (EntityFetcher C)}
    (h : (key, made) ∈ routes.filterMap (·.entityDemand? metadata plans)) :
    made = Fetchers.entityFor metadata plans key := by
  obtain ⟨route, -, hdemand⟩ := List.mem_filterMap.mp h
  cases route with
  | fetchOne path foreignKey target =>
    obtain ⟨rfl, rfl⟩ := Prod.mk.inj (Option.some.inj hdemand)
    rfl
  | copy | batch | fetchBack | embed | embedEach => cases hdemand

theorem exists_of_reverseDemand {plans : Dict MapperKey (Plan C)} {routes : List (Route C)} {key : ReverseKey}
    {made : Except Error (ReverseFetcher C)} (h : (key, made) ∈ routes.filterMap (·.reverseDemand? plans)) :
    ∃ path relation, .fetchBack path relation key ∈ routes ∧
      made = Fetchers.reverseFor plans key relation.foreignKey := by
  obtain ⟨route, hroute, hdemand⟩ := List.mem_filterMap.mp h
  cases route with
  | fetchBack path relation fetcher =>
    obtain ⟨rfl, rfl⟩ := Prod.mk.inj (Option.some.inj hdemand)
    exact ⟨path, relation, hroute, rfl⟩
  | copy | batch | fetchOne | embed | embedEach => cases hdemand

/-- Routes that go back along one relation of an entity agree on the foreign key. -/
def Consistent (routes : List (Route C)) : Prop :=
  ∀ path relation path' relation' key, .fetchBack path relation key ∈ routes →
    .fetchBack path' relation' key ∈ routes → relation.foreignKey = relation'.foreignKey

theorem Consistent.of_subset {routes routes' : List (Route C)} (h : Consistent routes) (hsubset : routes' ⊆ routes) :
    Consistent routes' :=
  fun _ _ _ _ _ hroute hroute' => h _ _ _ _ _ (hsubset hroute) (hsubset hroute')

/-! ## Demanded fetchers -/

namespace Fetchers

/-- There are the fetchers that routes demand, and no others. -/
structure Meet (metadata : Metadata) (plans : Dict MapperKey (Plan C)) (routes : List (Route C))
    (f : Fetchers C) : Prop where
  entity : f.entity.Meets (routes.filterMap (·.entityDemand? metadata plans))
  reverse : f.reverse.Meets (routes.filterMap (·.reverseDemand? plans))

variable {metadata : Metadata} {plans : Dict MapperKey (Plan C)} {routes : List (Route C)} {f g : Fetchers C}

/-! ### One fetcher -/

theorem demandEntity_of_made {target : MapperKey} {fetcher : EntityFetcher C}
    (hmade : entityFor metadata plans target = .ok fetcher) (keys : List MapperKey) (logs : List LogRecord) :
    After (f.demandEntity metadata ⟨keys, plans⟩ target) logs
      (either (fun f' _ => f' = { f with entity := f.entity.setNew target fetcher }) fun _ _ => False) := by
  obtain ⟨entity, hentity, hrest⟩ := bind_eq_ok.mp hmade
  obtain ⟨keyColumn, hcolumn, hrest⟩ := bind_eq_ok.mp hrest
  obtain ⟨plan, hplan, hfetcher⟩ := bind_eq_ok.mp hrest
  obtain rfl := Except.ok.inj hfetcher
  unfold demandEntity Dict.setNew
  split
  · rfl
  · have hplan' : Commitments.requirePlan ⟨keys, plans⟩ target = .ok plan := hplan
    rw [hentity]
    refine After.ok_bind ?_
    rw [hcolumn]
    refine After.ok_bind ?_
    rw [hplan']
    exact After.ok_bind rfl

theorem demandReverse_of_made {key : ReverseKey} {foreignKey : String} {fetcher : ReverseFetcher C}
    (hmade : reverseFor plans key foreignKey = .ok fetcher) (keys : List MapperKey) (logs : List LogRecord) :
    After (f.demandReverse ⟨keys, plans⟩ key foreignKey) logs
      (either (fun f' _ => f' = { f with reverse := f.reverse.setNew key fetcher }) fun _ _ => False) := by
  obtain ⟨plan, hplan, hrest⟩ := bind_eq_ok.mp hmade
  obtain ⟨carrier, hcarrier, hfetcher⟩ := bind_eq_ok.mp hrest
  obtain rfl := Except.ok.inj hfetcher
  unfold demandReverse Dict.setNew
  split
  · rfl
  · have hplan' : Commitments.requirePlan ⟨keys, plans⟩ key.mapper = .ok plan := hplan
    rw [hplan']
    refine After.ok_bind ?_
    rw [hcarrier]
    exact After.ok_bind rfl

/-! ### One route after the other -/

namespace Meet

theorem alike (h : Meet metadata plans routes f) (h' : Meet metadata plans routes g) : f.Alike g :=
  ⟨h.entity.get?_eq h'.entity, h.reverse.get?_eq h'.reverse⟩

theorem congr (h : Meet metadata plans routes f) {plans' : Dict MapperKey (Plan C)} {routes' : List (Route C)}
    (hplans : ∀ key, plans.get? key = plans'.get? key) (hroutes : ∀ route, route ∈ routes ↔ route ∈ routes') :
    Meet metadata plans' routes' f where
  entity := h.entity.congr fun _ => by
    simp only [List.mem_filterMap, hroutes, Route.entityDemand?_congr hplans]
  reverse := h.reverse.congr fun _ => by
    simp only [List.mem_filterMap, hroutes, Route.reverseDemand?_congr hplans]

theorem after_demand (h : Meet metadata plans routes f) {route : Route C}
    (hconsistent : Consistent (routes ++ [route])) (hsuppliable : route.Suppliable metadata plans)
    (keys : List MapperKey) (logs : List LogRecord) :
    After (f.demand metadata ⟨keys, plans⟩ route) logs
      (either (fun f' _ => Meet metadata plans (routes ++ [route]) f') fun _ _ => False) := by
  obtain ⟨hentity, hreverse⟩ := h
  cases route with
  | fetchOne path foreignKey target =>
    obtain ⟨fetcher, hmade⟩ := hsuppliable
    refine (demandEntity_of_made hmade keys logs).imp ?_ fun _ _ h => h
    rintro _ _ rfl
    refine ⟨?_, by simpa [Route.reverseDemand?] using hreverse⟩
    have hnew := hentity.setNew fun made hdemand => (eq_of_entityDemand hdemand).trans hmade
    simpa [Route.entityDemand?, hmade] using hnew
  | fetchBack path relation key =>
    obtain ⟨fetcher, hmade⟩ := hsuppliable
    refine (demandReverse_of_made hmade keys logs).imp ?_ fun _ _ h => h
    rintro _ _ rfl
    refine ⟨by simpa [Route.entityDemand?] using hentity, ?_⟩
    -- Routes that share a fetcher agree in the foreign key.
    have hnew := hreverse.setNew fun made (hdemand : (key, made) ∈ _) => by
      obtain ⟨path', relation', hroute, rfl⟩ := exists_of_reverseDemand hdemand
      have hforeignKey := hconsistent path' relation' path relation key (List.mem_append_left _ hroute) (by simp)
      exact hforeignKey ▸ hmade
    simpa [Route.reverseDemand?, hmade] using hnew
  | copy | batch | embed | embedEach =>
    exact ⟨by simpa [Route.entityDemand?] using hentity, by simpa [Route.reverseDemand?] using hreverse⟩

end Meet

theorem demandEach_eq (metadata : Metadata) (c : Commitments C) (registrations : List (Registration C)) (f : Fetchers C) :
    registrations.foldlM (fun f r => f.demandAll metadata c r.plan) f =
      (routesOf registrations).foldlM (fun f route => f.demand metadata c route) f := by
  induction registrations generalizing f with
  | nil => rfl
  | cons r registrations ih =>
    unfold routesOf at ih ⊢
    rw [List.foldlM_cons, List.flatMap_cons, List.foldlM_append, List.foldlM_map]
    exact congrArg _ (funext ih)

theorem meet_demandEach {registrations : List (Registration C)} (hconsistent : Consistent (routesOf registrations))
    (hsuppliable : ∀ route ∈ routesOf registrations, route.Suppliable metadata plans) (keys : List MapperKey)
    (logs : List LogRecord) :
    After (registrations.foldlM (fun f r => f.demandAll metadata ⟨keys, plans⟩ r.plan) Fetchers.empty) logs
      (either (fun f _ => Meet metadata plans (routesOf registrations) f) fun _ _ => False) := by
  rw [demandEach_eq]
  generalize routesOf registrations = routes at *
  have hloop := After.foldlM (f := fun f route => demand metadata ⟨keys, plans⟩ f route) (E := fun _ _ => False)
    (s := logs) (b := empty) (I := fun rest f _ => ∃ front, front ++ rest = routes ∧ Meet metadata plans front f)
    routes ?_ ⟨[], rfl, Dict.Meets.empty, Dict.Meets.empty⟩
  · refine hloop.imp ?_ fun _ _ h => h
    rintro f _ ⟨front, hfront, hf⟩
    rw [List.append_nil] at hfront
    exact hfront ▸ hf
  · rintro route rest f s hroute ⟨front, hfront, hf⟩
    rw [← List.singleton_append, ← List.append_assoc] at hfront
    have hsubset : front ++ [route] ⊆ routes := hfront ▸ List.subset_append_left _ rest
    refine (hf.after_demand (hconsistent.of_subset hsubset) (hsuppliable route hroute) keys s).imp ?_ fun _ _ h => h
    exact fun f' _ hf' => ⟨front ++ [route], hfront, hf'⟩

end Fetchers

end EntityMapping
