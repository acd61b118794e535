import EntityMapping.Pass.Waves

/-! # Settings of the same work

A pass reads its setting in few places: it asks for the ambient value, for the rows of the source, for what the
metadata say of an entity, whether destinations are shared, and for one fetcher at a time. Settings that give the
same answers to all that make every step the same. Only the beginning of a wave also looks at the limit.
-/

namespace EntityMapping

open PassM

variable {C : Type}

/-- Fetchers that are found under the same keys, in whatever order they came. -/
structure Fetchers.Alike (f g : Fetchers C) : Prop where
  entity : ∀ key, f.entity.get? key = g.entity.get? key
  reverse : ∀ key, f.reverse.get? key = g.reverse.get? key

/-- Settings that differ at most in the limit on waves and in the order of their fetchers. -/
structure Setting.Alike (a b : Setting C) : Prop where
  ambient : a.ambient = b.ambient
  source : a.source = b.source
  metadata : a.metadata = b.metadata
  shares : a.config.cacheDestinations = b.config.cacheDestinations
  fetchers : a.fetchers.Alike b.fetchers

namespace Setting.Alike

variable {a b : Setting C}

/-! ## Mapping -/

theorem cached_eq (h : a.Alike b) (mapper : MapperKey) (key : Option Key) :
    cached a mapper key = cached b mapper key := by
  unfold cached
  rw [h.shares]

theorem allocate_eq (h : a.Alike b) (mapper : MapperKey) (key : Option Key) (fields : Dict String Value) :
    allocate a mapper key fields = allocate b mapper key fields := by
  unfold allocate remember
  rw [h.shares]

theorem assign_eq (h : a.Alike b) (assignment : Assignment C) (v : Value) (o : ObjectRef) :
    assign a assignment v o = assign b assignment v o := by
  unfold assign
  rw [h.ambient]

mutual

theorem map_eq (h : a.Alike b) : ∀ (plan : Plan C) (t : Transient), plan.map a t = plan.map b t
  | .mk head items, t => by
    unfold Plan.map
    simp only [h.cached_eq, h.allocate_eq, fillItems_eq h items]

theorem fillItems_eq (h : a.Alike b) :
    ∀ (items : List (Assignment C × Route C)) (slots : List Slot) (o : ObjectRef),
      fillItems a items slots o = fillItems b items slots o
  | [], _, _ => rfl
  | _ :: _, [], _ => rfl
  | (assignment, route) :: rest, slot :: slots, o => by
    unfold fillItems
    simp only [fill_eq h route, fillItems_eq h rest]

theorem fill_eq (h : a.Alike b) : ∀ (route : Route C) (assignment : Assignment C) (slot : Slot) (o : ObjectRef),
    route.fill a assignment slot o = route.fill b assignment slot o
  | .copy _, assignment, _, o => h.assign_eq assignment _ o
  | .batch _ _, _, _, _ => rfl
  | .fetchOne _ _ _, _, _, _ => rfl
  | .fetchBack _ _ _, _, _, _ => rfl
  | .embed _ plan, assignment, slot, o => by
    unfold Route.fill
    cases slot with
    | embedded t =>
      cases t with
      | none => exact h.assign_eq assignment _ o
      | some t => simp only [map_eq h plan, h.assign_eq]
    | value | sequence => rfl
  | .embedEach _ plan, assignment, slot, o => by
    unfold Route.fill
    cases slot with
    | sequence ts =>
      cases ts with
      | none => rfl
      | some ts => simp only [map_eq h plan, h.assign_eq]
    | value | embedded => rfl

end

/-! ## Resolving -/

variable (h : a.Alike b)
include h

theorem materialize_eq (plan : Plan C) (q : Query) : materialize a plan q = materialize b plan q := by
  unfold materialize
  simp only [h.source, h.metadata, h.ambient, h.map_eq]

theorem deliver_eq (number : Nat) (d : Delivery C) (v : Value) : deliver a number d v = deliver b number d v := by
  unfold deliver
  simp only [h.assign_eq]

theorem resolveReverse_eq (key : ReverseKey) (requests : List (KeyedRequest C)) :
    resolveReverse a key requests = resolveReverse b key requests := by
  unfold resolveReverse Fetchers.requireReverse ReverseFetcher.resolve
  simp only [h.fetchers.reverse, h.materialize_eq, h.deliver_eq]

theorem resolveEntity_eq (key : MapperKey) (requests : List (KeyedRequest C)) :
    resolveEntity a key requests = resolveEntity b key requests := by
  unfold resolveEntity Fetchers.requireEntity EntityFetcher.resolve
  simp only [h.fetchers.entity, h.materialize_eq, h.deliver_eq]

theorem runScript_eq {n : Nat} (script : Script n) (pending : List (BatchRequest C))
    (hlength : pending.length = n) :
    runScript a script pending hlength = runScript b script pending hlength := by
  induction script generalizing pending with
  | finish | fail => rfl
  | inspect next ih | create typeName fields next ih | set o field v next ih | note entry next ih =>
    unfold runScript
    simp only [ih]
  | apply i v next ih =>
    unfold runScript
    simp only [ih, h.deliver_eq]

theorem resolveBatch_eq (p : Processor C) (requests : List (BatchRequest C)) :
    resolveBatch a p requests = resolveBatch b p requests := by
  unfold resolveBatch
  simp only [h.ambient, h.runScript_eq]

theorem resolveGroups_eq (g : Groups C) : resolveGroups a g = resolveGroups b g := by
  unfold resolveGroups
  simp only [h.resolveReverse_eq, h.resolveEntity_eq, h.resolveBatch_eq]

/-! ## Waves -/

theorem runHook_eq (hook : PendingHook C) : runHook a hook = runHook b hook := by
  unfold runHook
  rw [h.ambient]

variable (hlimit : a.config.waveLimit = b.config.waveLimit)
include hlimit

theorem runWave_eq (requests : List (Request C)) (hooks : List (PendingHook C)) :
    runWave a requests hooks = runWave b requests hooks := by
  have hrunHook : runHook a = runHook b := funext h.runHook_eq
  unfold runWave beginWave
  simp only [hlimit, h.resolveGroups_eq, hrunHook]

theorem drain_eq (waves : Nat) : drain a waves = drain b waves := by
  induction waves with
  | zero => rfl
  | succ waves ih =>
    unfold drain
    simp only [h.runWave_eq hlimit, ih]

end Setting.Alike

end EntityMapping
