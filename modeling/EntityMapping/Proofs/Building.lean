import EntityMapping.Proofs.Commitment
import EntityMapping.Proofs.Graph.Cycles
import EntityMapping.Proofs.Graph.Sweeping

/-! # Building registries

A registry is built from declarations that resolve to mappers without a cycle. The sort then brings every
mapper behind those it needs, so that each of them can be committed when its turn comes.
-/

open Relation

namespace EntityMapping

variable {C : Type}

/-! ## Order -/

namespace Resolves

variable {metadata : Metadata} {declared : List (MapperDeclaration C)} {mappers : List (Mapper C)}

theorem needs_eq (h : Resolves metadata declared mappers) :
    Graph.Needs (Registry.dependenciesIn mappers) = DependsOn mappers := by
  funext a b
  exact propext h.mem_dependenciesIn

theorem findCycle_eq_none_iff (h : Resolves metadata declared mappers) :
    Graph.findCycle (declared.map (·.key)) (declared.map (·.key)) (Registry.dependenciesIn mappers) =
        none ↔ ∀ key, ¬ TransGen (DependsOn mappers) key key := by
  rw [Graph.findCycle_eq_none_iff (List.Subset.refl _)]
  · unfold Graph.Cyclic
    rw [h.needs_eq]
    constructor
    · intro hnone key hcycle
      obtain ⟨b, hb, -⟩ := TransGen.head'_iff.mp hcycle
      exact hnone key (h.mem_keys hb).1 ⟨key, ReflTransGen.refl, hcycle⟩
    · rintro hnone root - ⟨a, -, hcycle⟩
      exact hnone a hcycle
  · intro a _ b hb
    exact (h.mem_keys (h.mem_dependenciesIn.mp hb)).2

theorem acyclic (h : Resolves metadata declared mappers)
    (hacyclic : ∀ key, ¬ TransGen (DependsOn mappers) key key) :
    Graph.Acyclic (declared.map (·.key)) (Registry.dependenciesIn mappers) := by
  intro key hcycle
  refine hacyclic key (TransGen.mono ?_ key key hcycle)
  intro a b hedge
  exact h.mem_dependenciesIn.mp hedge.2.2

theorem unique {mappers' : List (Mapper C)} (h : Resolves metadata declared mappers)
    (h' : Resolves metadata declared mappers') : mappers = mappers' := by
  have heq := (mapM_eq_ok.mpr h.resolved).symm.trans (mapM_eq_ok.mpr h'.resolved)
  exact Except.ok.inj heq

theorem keys_arrange (h : Resolves metadata declared mappers) {order : List MapperKey}
    (horder : order ⊆ declared.map (·.key)) :
    (Registry.arrange mappers order).map (·.key) = order := by
  unfold Registry.arrange
  induction order with
  | nil => rfl
  | cons key order ih =>
    obtain ⟨hkey, hrest⟩ := List.cons_subset.mp horder
    rw [← h.keys_eq] at hkey
    obtain ⟨m, hm, rfl⟩ := List.mem_map.mp hkey
    simp only [List.filterMap_cons, h.find?_eq hm, List.map_cons, ih hrest]

theorem mem_of_mem_arrange (order : List MapperKey) {m : Mapper C}
    (hm : m ∈ Registry.arrange mappers order) : m ∈ mappers := by
  obtain ⟨key, -, hfind⟩ := List.mem_filterMap.mp hm
  exact List.mem_of_find?_eq_some hfind

end Resolves

namespace Registry

theorem after_commitOrder {keys : List MapperKey} {dependencies : MapperKey → List MapperKey}
    (hacyclic : Graph.Acyclic keys dependencies) (hnodup : keys.Nodup) (logs : List LogRecord) :
    After (commitOrder keys dependencies) logs
      (either (fun order s => order.Perm keys ∧ Graph.Sorted order dependencies ∧ s = logs)
        fun _ _ => False) := by
  unfold commitOrder
  obtain ⟨hsettled, hsorted⟩ := Graph.sweepSort_settles keys dependencies hacyclic
  have hperm := Graph.perm_sweepSort keys dependencies hnodup
  generalize Graph.sweepSort keys dependencies = result at *
  obtain ⟨order, settled⟩ := result
  obtain rfl : settled = true := hsettled
  exact ⟨hperm, hsorted, rfl⟩

theorem mem_front_of_sorted {mappers : List (Mapper C)} {keys front back : List MapperKey}
    {a b : MapperKey} (hsorted : Graph.Sorted (front ++ a :: back) (dependenciesIn mappers))
    (hall : (front ++ a :: back).Perm keys) (hb : b ∈ keys)
    (hacyclic : Graph.Acyclic keys (dependenciesIn mappers)) (hab : b ∈ dependenciesIn mappers a) :
    b ∈ front := by
  have hmem : b ∈ front ++ a :: back := hall.mem_iff.mpr hb
  have ha : a ∈ keys := hall.mem_iff.mp (by simp)
  rcases List.mem_append.mp hmem with hfront | hback
  · exact hfront
  · rcases List.mem_cons.mp hback with rfl | hback
    · exact absurd (TransGen.single ⟨ha, ha, hab⟩) (hacyclic b)
    · unfold Graph.Sorted at hsorted
      rw [List.pairwise_append, List.pairwise_cons] at hsorted
      exact absurd hab (hsorted.2.1.1 b hback)

end Registry

theorem Resolves.mem_front {metadata : Metadata} {declared : List (MapperDeclaration C)}
    {mappers front back : List (Mapper C)} {order : List MapperKey} {m : Mapper C}
    (h : Resolves metadata declared mappers)
    (hacyclic : Graph.Acyclic (declared.map (·.key)) (Registry.dependenciesIn mappers))
    (hperm : order.Perm (declared.map (·.key)))
    (hsorted : Graph.Sorted order (Registry.dependenciesIn mappers))
    (hsplit : Registry.arrange mappers order = front ++ m :: back) {i : Item C} (hi : i ∈ m.items)
    {key : MapperKey} (hkey : i.dependency? = some key) : key ∈ front.map (·.key) := by
  have hm : m ∈ mappers := mem_of_mem_arrange order (hsplit ▸ by simp)
  have hneeds : DependsOn mappers m.key key := ⟨m, hm, rfl, i, hi, hkey⟩
  have harranged := h.keys_arrange hperm.subset
  rw [hsplit, List.map_append, List.map_cons] at harranged
  rw [← harranged] at hsorted hperm
  exact Registry.mem_front_of_sorted hsorted hperm (h.mem_keys hneeds).2 hacyclic
    (h.mem_dependenciesIn.mpr hneeds)

/-! ## Fetchers -/

/-- The routes of some registered mappers. -/
def routesOf (registrations : List (Registration C)) : List (Route C) :=
  registrations.flatMap fun r => r.plan.items.map (·.2)

/-- The fetchers serve these routes, by the plans that are committed. -/
structure Supplied (metadata : Metadata) (plans : Dict MapperKey (Plan C)) (routes : List (Route C))
    (f : Fetchers C) : Prop where
  one : ∀ path foreignKey target, .fetchOne path foreignKey target ∈ routes →
    (f.entity.get? target).isSome
  back : ∀ path relation key, .fetchBack path relation key ∈ routes → (f.reverse.get? key).isSome
  entity : ∀ key fetcher, f.entity.get? key = some fetcher →
    plans.get? key = some fetcher.plan ∧
      ∃ e, metadata.entity? key.source = some e ∧ e.primaryKey = [fetcher.keyColumn]
  reverse : ∀ key fetcher, f.reverse.get? key = some fetcher →
    plans.get? key.mapper = some fetcher.plan ∧
      fetcher.plan.head.carrierSlot fetcher.foreignKey = .ok fetcher.carrier ∧
      ∃ path relation, .fetchBack path relation key ∈ routes ∧
        relation.foreignKey = fetcher.foreignKey

namespace Supplied

variable {metadata : Metadata} {plans : Dict MapperKey (Plan C)} {routes : List (Route C)}
  {f : Fetchers C}

theorem empty : Supplied metadata plans [] (Fetchers.empty : Fetchers C) where
  one _ _ _ h := absurd h (by simp)
  back _ _ _ h := absurd h (by simp)
  entity _ _ h := by cases h
  reverse _ _ h := by cases h

theorem concat (h : Supplied metadata plans routes f) {route : Route C}
    (hone : ∀ path foreignKey target, route = .fetchOne path foreignKey target →
      (f.entity.get? target).isSome)
    (hback : ∀ path relation key, route = .fetchBack path relation key →
      (f.reverse.get? key).isSome) :
    Supplied metadata plans (routes ++ [route]) f where
  one path foreignKey target hmem := by
    rcases List.mem_append.mp hmem with hmem | hmem
    · exact h.one path foreignKey target hmem
    · exact hone path foreignKey target (List.mem_singleton.mp hmem).symm
  back path relation key hmem := by
    rcases List.mem_append.mp hmem with hmem | hmem
    · exact h.back path relation key hmem
    · exact hback path relation key (List.mem_singleton.mp hmem).symm
  entity := h.entity
  reverse key fetcher hget := by
    obtain ⟨hplan, hslot, path, relation, hmem, hkey⟩ := h.reverse key fetcher hget
    exact ⟨hplan, hslot, path, relation, List.mem_append_left _ hmem, hkey⟩

theorem addEntity (h : Supplied metadata plans routes f) {target : MapperKey} {plan : Plan C}
    {e : Entity} {keyColumn : String} (hplan : plans.get? target = some plan)
    (he : metadata.entity? target.source = some e) (hkey : e.primaryKey = [keyColumn])
    (path : List String) (foreignKey : String) :
    Supplied metadata plans (routes ++ [.fetchOne path foreignKey target])
      { f with entity := f.entity.set target ⟨plan, keyColumn⟩ } where
  one path' foreignKey' target' hmem := by
    rw [Dict.get?_set]
    split
    · rfl
    · rename_i hne
      rcases List.mem_append.mp hmem with hmem | hmem
      · exact h.one path' foreignKey' target' hmem
      · injection List.mem_singleton.mp hmem with _ _ heq
        exact absurd heq.symm hne
  back path relation key hmem := by
    rcases List.mem_append.mp hmem with hmem | hmem
    · exact h.back path relation key hmem
    · cases List.mem_singleton.mp hmem
  entity key fetcher hget := by
    rw [Dict.get?_set] at hget
    split at hget
    · rename_i heq
      obtain rfl := Option.some.inj hget
      exact heq ▸ ⟨hplan, e, he, hkey⟩
    · exact h.entity key fetcher hget
  reverse key fetcher hget := by
    obtain ⟨hplan, hslot, path, relation, hmem, hkey⟩ := h.reverse key fetcher hget
    exact ⟨hplan, hslot, path, relation, List.mem_append_left _ hmem, hkey⟩

theorem addReverse (h : Supplied metadata plans routes f) {key : ReverseKey} {plan : Plan C}
    {carrier : Nat} (hplan : plans.get? key.mapper = some plan) (relation : Relation)
    (hslot : plan.head.carrierSlot relation.foreignKey = .ok carrier) (path : List String) :
    Supplied metadata plans (routes ++ [.fetchBack path relation key])
      { f with reverse := f.reverse.set key ⟨plan, relation.foreignKey, carrier⟩ } where
  one path foreignKey target hmem := by
    rcases List.mem_append.mp hmem with hmem | hmem
    · exact h.one path foreignKey target hmem
    · cases List.mem_singleton.mp hmem
  back path' relation' key' hmem := by
    rw [Dict.get?_set]
    split
    · rfl
    · rename_i hne
      rcases List.mem_append.mp hmem with hmem | hmem
      · exact h.back path' relation' key' hmem
      · injection List.mem_singleton.mp hmem with _ _ heq
        exact absurd heq.symm hne
  entity := h.entity
  reverse key' fetcher hget := by
    rw [Dict.get?_set] at hget
    split at hget
    · rename_i heq
      obtain rfl := Option.some.inj hget
      exact heq ▸ ⟨hplan, hslot, path, relation, by simp, rfl⟩
    · obtain ⟨hplan, hslot, path, relation, hmem, hkey⟩ := h.reverse key' fetcher hget
      exact ⟨hplan, hslot, path, relation, List.mem_append_left _ hmem, hkey⟩

end Supplied

theorem misnamed_carrierSlot (head : PlanHead C) (column : String) :
    FailsOnly Misnamed (head.carrierSlot column) := by
  unfold PlanHead.carrierSlot
  split
  · exact FailsOnly.ok _
  · simp [Misnamed, Mistake, Unclashing, Error.isConfiguration]

namespace Fetchers

variable {metadata : Metadata} {c : Commitments C} {routes : List (Route C)}

theorem after_demandEntity {f : Fetchers C} {target : MapperKey}
    (hplan : c.plans.contains target = true) (hf : Supplied metadata c.plans routes f)
    (path : List String) (foreignKey : String) (logs : List LogRecord) :
    After (f.demandEntity metadata c target) logs
      (either (fun f' _ => Supplied metadata c.plans (routes ++ [.fetchOne path foreignKey target]) f')
        fun e _ => Mistake e) := by
  unfold demandEntity
  split
  · rename_i hmem
    refine hf.concat (fun _ _ _ heq => ?_) (fun _ _ _ heq => absurd heq (by simp))
    injection heq with _ _ heq
    exact heq ▸ hmem
  · refine After.ofExcept_bind (fun e he => ?_) (misnamed_requireEntity _ _).mistake
    refine After.ofExcept_bind (fun keyColumn hcolumn => ?_) (misnamed_singlePrimaryKey e).mistake
    refine After.ofExcept_bind (fun plan hget => ?_) (mistake_requirePlan hplan)
    exact hf.addEntity (requirePlan_eq_ok.mp hget) (requireEntity_eq_ok.mp he)
      (Item.singlePrimaryKey_eq_ok.mp hcolumn) path foreignKey

theorem after_demandReverse {f : Fetchers C} {key : ReverseKey}
    (hplan : c.plans.contains key.mapper = true) (hf : Supplied metadata c.plans routes f)
    (path : List String) (relation : Relation) (logs : List LogRecord) :
    After (f.demandReverse c key relation.foreignKey) logs
      (either (fun f' _ => Supplied metadata c.plans (routes ++ [.fetchBack path relation key]) f')
        fun e _ => Mistake e) := by
  unfold demandReverse
  split
  · rename_i hmem
    refine hf.concat (fun _ _ _ heq => absurd heq (by simp)) (fun _ _ _ heq => ?_)
    injection heq with _ _ heq
    exact heq ▸ hmem
  · refine After.ofExcept_bind (fun plan hget => ?_) (mistake_requirePlan hplan)
    refine After.ofExcept_bind (fun carrier hslot => ?_) (misnamed_carrierSlot _ _).mistake
    exact hf.addReverse (requirePlan_eq_ok.mp hget) relation hslot path

/-- The mappers of routes are committed, so nothing is missing for their fetchers but by mistake. -/
theorem after_demand {f : Fetchers C} {route : Route C}
    (hplan : ∀ key, route.target? = some key → c.plans.contains key = true)
    (hf : Supplied metadata c.plans routes f) (logs : List LogRecord) :
    After (f.demand metadata c route) logs
      (either (fun f' _ => Supplied metadata c.plans (routes ++ [route]) f') fun e _ => Mistake e) := by
  cases route with
  | fetchOne path foreignKey target =>
    exact after_demandEntity (hplan target rfl) hf path foreignKey logs
  | fetchBack path relation key =>
    exact after_demandReverse (hplan key.mapper rfl) hf path relation logs
  | copy | batch | embed | embedEach =>
    exact hf.concat (fun _ _ _ heq => absurd heq (by simp)) (fun _ _ _ heq => absurd heq (by simp))

theorem after_demandAll {f : Fetchers C} {plan : Plan C}
    (hplan : ∀ i ∈ plan.items, ∀ key, i.2.target? = some key → c.plans.contains key = true)
    (hf : Supplied metadata c.plans routes f) (logs : List LogRecord) :
    After (f.demandAll metadata c plan) logs
      (either (fun f' _ => Supplied metadata c.plans (routes ++ plan.items.map (·.2)) f')
        fun e _ => Mistake e) := by
  unfold demandAll
  -- The routes that were demanded are those of the items that are not left.
  have hloop := After.foldlM (f := fun f i => demand metadata c f i.2) (E := fun e _ => Mistake e)
    (s := logs) (b := f)
    (I := fun rest f' _ => ∃ front, front ++ rest = plan.items ∧
      Supplied metadata c.plans (routes ++ front.map (·.2)) f') plan.items ?_ ⟨[], rfl, by simpa using hf⟩
  · refine hloop.imp ?_ fun _ _ h => h
    rintro f' _ ⟨front, hfront, hf'⟩
    rw [List.append_nil] at hfront
    exact hfront ▸ hf'
  · rintro i rest f' s hi ⟨front, hfront, hf'⟩
    refine (after_demand (hplan i hi) hf' s).imp ?_ fun _ _ h => h
    intro f'' _ hf''
    exact ⟨front ++ [i], by simpa using hfront, by simpa using hf''⟩

theorem after_demandEach {plans : Dict MapperKey (Plan C)} {keys : List MapperKey}
    {registrations : List (Registration C)}
    (hplan : ∀ route ∈ routesOf registrations, ∀ key, route.target? = some key →
      plans.contains key = true) (logs : List LogRecord) :
    After (registrations.foldlM (fun f r => f.demandAll metadata ⟨keys, plans⟩ r.plan) empty) logs
      (either (fun f _ => Supplied metadata plans (routesOf registrations) f) fun e _ => Mistake e) := by
  have hloop := After.foldlM (f := fun f (r : Registration C) => demandAll metadata ⟨keys, plans⟩ f r.plan)
    (E := fun e _ => Mistake e) (s := logs) (b := empty)
    (I := fun rest f _ => ∃ front, front ++ rest = registrations ∧
      Supplied metadata plans (routesOf front) f) registrations ?_ ⟨[], rfl, Supplied.empty⟩
  · refine hloop.imp ?_ fun _ _ h => h
    rintro f _ ⟨front, hfront, hf⟩
    rw [List.append_nil] at hfront
    exact hfront ▸ hf
  · rintro r rest f s hr ⟨front, hfront, hf⟩
    refine (after_demandAll (c := ⟨keys, plans⟩) (fun i hi => hplan i.2 ?_) hf s).imp ?_ fun _ _ h => h
    · exact List.mem_flatMap.mpr ⟨r, hr, List.mem_map_of_mem hi⟩
    · intro f' _ hf'
      exact ⟨front ++ [r], by simpa using hfront, by simpa [routesOf] using hf'⟩

end Fetchers

/-! ## Commitment -/

namespace Registry

theorem after_commitEach {metadata : Metadata} {keys : List MapperKey} {mappers : List (Mapper C)}
    (hnodup : (mappers.map (·.key)).Nodup)
    (hearlier : ∀ front m back, mappers = front ++ m :: back →
      ∀ i ∈ m.items, ∀ key, i.dependency? = some key → key ∈ front.map (·.key))
    (logs : List LogRecord) :
    After (mappers.foldlM (commitNext metadata keys) []) logs
      (either (fun registrations _ =>
        Committed metadata keys registrations ∧ registrations.map (·.mapper) = mappers)
        fun e _ => Mistake e) := by
  have hloop := After.foldlM (f := commitNext metadata keys) (E := fun e _ => Mistake e) (s := logs)
    (b := [])
    (I := fun rest registrations _ => Committed metadata keys registrations ∧
      registrations.map (·.mapper) ++ rest = mappers) mappers ?_ ⟨Committed.nil, rfl⟩
  · refine hloop.imp ?_ fun _ _ h => h
    rintro registrations _ ⟨hcommitted, hmappers⟩
    exact ⟨hcommitted, by simpa using hmappers⟩
  · rintro m rest front s hm ⟨hcommitted, hmappers⟩
    have hkeys : front.map (·.mapper.key) = (front.map (·.mapper)).map (·.key) := by simp
    unfold commitNext
    refine After.bind (P := fun _ _ => True) (E := fun _ _ => False) trivial (fun _ s' _ => ?_) (by simp)
    refine After.ofExcept_bind (fun plan hplan => ?_) (mistake_commit m metadata _ ?_ ?_)
    · exact ⟨hcommitted.concat hplan, by simpa using hmappers⟩
    -- No mapper of this key was committed before, as the keys are different.
    · rw [← Bool.not_eq_true]
      intro hcontains
      rw [contains_plansOf, hkeys] at hcontains
      rw [← hmappers, List.map_append, List.nodup_append] at hnodup
      exact hnodup.2.2 _ hcontains m.key (by simp) rfl
    · intro i hi key hkey
      rw [contains_plansOf, hkeys]
      exact hearlier _ m rest hmappers.symm i hi key hkey

theorem contains_target {metadata : Metadata} {declared : List (MapperDeclaration C)}
    {mappers : List (Mapper C)} {registrations : List (Registration C)}
    (h : Resolves metadata declared mappers)
    (hcommitted : Committed metadata (declared.map (·.key)) registrations)
    (hmem : ∀ r ∈ registrations, r.mapper ∈ mappers)
    (hperm : (registrations.map (·.mapper.key)).Perm (declared.map (·.key))) {route : Route C}
    (hroute : route ∈ routesOf registrations) {key : MapperKey} (hkey : route.target? = some key) :
    (plansOf registrations).contains key = true := by
  obtain ⟨r, hr, hroute⟩ := List.mem_flatMap.mp hroute
  obtain ⟨⟨a, _⟩, hitem, rfl⟩ := List.mem_map.mp hroute
  obtain ⟨i, hi, -, htarget, -⟩ := hcommitted.route hr hitem
  have hneeds : DependsOn mappers r.mapper.key key := ⟨r.mapper, hmem r hr, rfl, i, hi, htarget key hkey⟩
  rw [contains_plansOf]
  exact hperm.mem_iff.mpr (h.mem_keys hneeds).2

/-! ## Registries -/

/-- What is known of mappers that are all committed. -/
structure Commissioned (metadata : Metadata) (declared : List (MapperDeclaration C))
    (mappers : List (Mapper C)) (c : Commission C) : Prop where
  keys_eq : c.keys = declared.map (·.key)
  resolves : Resolves metadata declared mappers
  acyclic : ∀ key, ¬ TransGen (DependsOn mappers) key key
  committed : Committed metadata c.keys c.registrations
  perm : (c.registrations.map (·.mapper.key)).Perm c.keys
  mem : ∀ registration ∈ c.registrations, registration.mapper ∈ mappers
  earlier : ∀ front registration back, c.registrations = front ++ registration :: back →
    ∀ i ∈ registration.mapper.items, ∀ key, i.dependency? = some key →
      key ∈ front.map (·.mapper.key)

/-- What is known of a registry that was built. -/
structure Built (metadata : Metadata) (config : Config) (declared : List (MapperDeclaration C))
    (mappers : List (Mapper C)) (r : Registry C) : Prop where
  metadata_eq : r.metadata = metadata
  config_eq : r.config = config
  resolves : Resolves metadata declared mappers
  acyclic : ∀ key, ¬ TransGen (DependsOn mappers) key key
  committed : Committed metadata (declared.map (·.key)) r.registrations
  perm : r.order.Perm (declared.map (·.key))
  mem : ∀ registration ∈ r.registrations, registration.mapper ∈ mappers
  earlier : ∀ front registration back, r.registrations = front ++ registration :: back →
    ∀ i ∈ registration.mapper.items, ∀ key, i.dependency? = some key →
      key ∈ front.map (·.mapper.key)
  supplied : Supplied metadata (plansOf r.registrations) (routesOf r.registrations) r.fetchers

/-- How building ends: with a registry, with a mistake in declarations that are free of cycles, or with
a cycle before anything was committed. -/
inductive BuildEnds (metadata : Metadata) (config : Config) (declared : List (MapperDeclaration C))
    (logs : List LogRecord) : Except Error (Registry C) → List LogRecord → Prop
  | built {mappers : List (Mapper C)} {r : Registry C} {logs' : List LogRecord} :
    Built metadata config declared mappers r → BuildEnds metadata config declared logs (.ok r) logs'
  | mistake {e : Error} {logs' : List LogRecord} : Mistake e →
    (∀ mappers, Resolves metadata declared mappers → ∀ key, ¬ TransGen (DependsOn mappers) key key) →
    BuildEnds metadata config declared logs (.error e) logs'
  | cycle {mappers : List (Mapper C)} {path : List MapperKey} : Resolves metadata declared mappers →
    Graph.IsCycle (dependenciesIn mappers) path →
    BuildEnds metadata config declared logs (.error (.mapperCycle (path.map (·.text)))) logs

/-- Committing all mappers ends with all of them committed, or as building ends without a registry. -/
theorem after_commitAll (metadata : Metadata) (config : Config) (declared : List (MapperDeclaration C))
    (logs : List LogRecord) :
    After (commitAll metadata declared) logs
      (either (fun c _ => ∃ mappers, Commissioned metadata declared mappers c)
        fun e logs' => BuildEnds metadata config declared logs (.error e) logs') := by
  -- Declarations that do not resolve are not required to be free of cycles.
  have hunresolved : ∀ e, (∀ mappers, ¬ Resolves metadata declared mappers) → Mistake e →
      BuildEnds metadata config declared logs (.error e) logs :=
    fun e hnone he => .mistake he fun mappers hmappers => absurd hmappers (hnone mappers)
  unfold commitAll
  refine After.ofExcept_bind (fun keys hkeys => ?_) (fun e he => ?_)
  swap
  · refine hunresolved e (fun mappers hmappers => ?_) ((misnamed_declaredKeys _ _).mistake e he)
    obtain ⟨keys, hkeys, -⟩ := resolves_iff.mp hmappers
    cases he.symm.trans hkeys
  refine After.ofExcept_bind (fun mappers hmappers => ?_) (fun e he => ?_)
  swap
  · refine hunresolved e (fun mappers hmappers => ?_)
      (FailsOnly.mapM (fun d _ => mistake_resolveMapper metadata keys d) e he)
    obtain ⟨keys', hkeys', hmappers⟩ := resolves_iff.mp hmappers
    obtain rfl := Except.ok.inj (hkeys.symm.trans hkeys')
    cases he.symm.trans hmappers
  have hresolves : Resolves metadata declared mappers := resolves_iff.mpr ⟨keys, hkeys, hmappers⟩
  obtain ⟨rfl, -⟩ := declaredKeys_eq_ok.mp hkeys
  unfold refuseCycle
  refine After.ofExcept_bind (fun _ hcycle => ?_) (fun e he => ?_)
  swap
  · split at he
    · rename_i path hpath
      obtain rfl := Except.error.inj he
      exact .cycle hresolves (Graph.isCycle_of_findCycle hpath)
    · simp at he
  have hacyclic : ∀ key, ¬ TransGen (DependsOn mappers) key key := by
    split at hcycle
    · simp at hcycle
    · rename_i hnone
      exact hresolves.findCycle_eq_none_iff.mp hnone
  have hmistake : ∀ e logs', Mistake e → BuildEnds metadata config declared logs (.error e) logs' :=
    fun e logs' he => .mistake he fun mappers' hmappers' => hmappers'.unique hresolves ▸ hacyclic
  have hgraph := hresolves.acyclic hacyclic
  refine After.bind (after_commitOrder hgraph hresolves.distinct logs) ?_ (fun _ _ h => absurd h (by simp))
  rintro order _ ⟨hperm, hsorted, rfl⟩
  have harranged : (arrange mappers order).map (·.key) = order :=
    hresolves.keys_arrange hperm.subset
  have hearlier : ∀ front m back, arrange mappers order = front ++ m :: back →
      ∀ i ∈ m.items, ∀ key, i.dependency? = some key → key ∈ front.map (·.key) :=
    fun _ _ _ hsplit _ hi _ hkey => hresolves.mem_front hgraph hperm hsorted hsplit hi hkey
  have hnodup : ((arrange mappers order).map (·.key)).Nodup :=
    harranged.symm ▸ hperm.symm.nodup hresolves.distinct
  refine After.bind (after_commitEach hnodup hearlier _) ?_ hmistake
  rintro registrations _ ⟨hcommitted, hregistered⟩
  have hmem : ∀ r ∈ registrations, r.mapper ∈ mappers := fun r hr =>
    Resolves.mem_of_mem_arrange order (hregistered ▸ List.mem_map_of_mem hr)
  have hkeysOf : registrations.map (·.mapper.key) = order := by
    rw [← harranged, ← hregistered, List.map_map]
    rfl
  rw [← hkeysOf] at hperm
  refine ⟨mappers, rfl, hresolves, hacyclic, hcommitted, hperm, hmem, ?_⟩
  intro front registration back hsplit i hi key hkey
  change registrations = _ at hsplit
  have hfront := hearlier (front.map (·.mapper)) registration.mapper (back.map (·.mapper))
    (by rw [← hregistered, hsplit, List.map_append, List.map_cons]) i hi key hkey
  simpa using hfront

theorem after_build (metadata : Metadata) (config : Config) (declared : List (MapperDeclaration C))
    (logs : List LogRecord) :
    After (build metadata config declared) logs (BuildEnds metadata config declared logs) := by
  unfold build
  refine After.bind (after_commitAll metadata config declared logs) ?_ fun _ _ h => h
  rintro ⟨keys, order, registrations⟩ logs₁ ⟨mappers, hkeys, hresolves, hacyclic, hcommitted, hperm, hmem, hearlier⟩
  obtain rfl : keys = declared.map (·.key) := hkeys
  have hplans : ∀ route ∈ routesOf registrations, ∀ key, route.target? = some key →
      (plansOf registrations).contains key = true :=
    fun _ hroute _ hkey => contains_target hresolves hcommitted hmem hperm hroute hkey
  refine After.bind (Fetchers.after_demandEach hplans logs₁) ?_ fun e _ he =>
    .mistake he fun mappers' hmappers' => hmappers'.unique hresolves ▸ hacyclic
  intro fetchers logs₂ hsupplied
  exact .built ⟨rfl, rfl, hresolves, hacyclic, hcommitted, hperm, hmem, hearlier, hsupplied⟩

/-- A registry that was built holds every declared mapper once, each committed after the mappers that
its items need. Declarations that resolve are refused for a cycle exactly when there is one, before
anything is committed, and the cycle is told. Every other failure is a mistake in the declarations. -/
theorem build_commits_in_order (metadata : Metadata) (config : Config)
    (declared : List (MapperDeclaration C)) (logs : List LogRecord) :
    let ran := (build metadata config declared).run.run logs
    (∀ r, ran.1 = .ok r →
      r.order.Perm (declared.map (·.key)) ∧ r.order.Nodup ∧
        ∀ front registration back, r.registrations = front ++ registration :: back →
          (∃ d ∈ declared,
            resolveMapper metadata (declared.map (·.key)) d = .ok registration.mapper) ∧
          registration.mapper.commit metadata ⟨declared.map (·.key), plansOf front⟩ =
            .ok registration.plan ∧
          ∀ i ∈ registration.mapper.items, ∀ key, i.dependency? = some key →
            key ∈ front.map (·.mapper.key)) ∧
    (∀ mappers, Resolves metadata declared mappers →
      ((∃ path, ran.1 = .error (.mapperCycle path)) ↔
        ∃ key, TransGen (DependsOn mappers) key key) ∧
      ∀ path, ran.1 = .error (.mapperCycle path) →
        ran.2 = logs ∧ ∃ nodes : List MapperKey, path = nodes.map (·.text) ∧ 2 ≤ nodes.length ∧
          nodes.head? = nodes.getLast? ∧ nodes.IsChain (DependsOn mappers)) ∧
    ∀ e, ran.1 = .error e →
      e.isConfiguration = true ∧ (∀ mapper, e ≠ .notCommitted mapper) ∧
        ∀ mapper, e ≠ .alreadyCommitted mapper := by
  intro ran
  have hends : BuildEnds metadata config declared logs ran.1 ran.2 :=
    after_build metadata config declared logs
  obtain ⟨result, logs'⟩ := ran
  dsimp only at hends ⊢
  refine ⟨?_, ?_, ?_⟩
  · rintro r rfl
    cases hends with
    | built hbuilt =>
      refine ⟨hbuilt.perm, hbuilt.committed.nodup, fun front registration back hsplit => ?_⟩
      have hr : registration ∈ r.registrations := hsplit ▸ by simp
      exact ⟨hbuilt.resolves.exists_declaration (hbuilt.mem _ hr),
        (hsplit ▸ hbuilt.committed).commit_eq, hbuilt.earlier front registration back hsplit⟩
  · intro mappers hmappers
    -- Only one of the three ends is a cycle, and the other two are acyclic.
    cases hends with
    | @built _ r _ hbuilt =>
      obtain rfl := hmappers.unique hbuilt.resolves
      have hne : ∀ path, (.ok r : Except Error (Registry C)) ≠ .error (.mapperCycle path) := by simp
      refine ⟨⟨fun ⟨path, hpath⟩ => absurd hpath (hne path), ?_⟩,
        fun path hpath => absurd hpath (hne path)⟩
      rintro ⟨key, hcycle⟩
      exact absurd hcycle (hbuilt.acyclic key)
    | @mistake e _ he hacyclic =>
      have hne : ∀ path, (.error e : Except Error (Registry C)) ≠ .error (.mapperCycle path) :=
        fun path heq => he.2.2 path (Except.error.inj heq)
      refine ⟨⟨fun ⟨path, hpath⟩ => absurd hpath (hne path), ?_⟩,
        fun path hpath => absurd hpath (hne path)⟩
      rintro ⟨key, hcycle⟩
      exact absurd hcycle (hacyclic mappers hmappers key)
    | @cycle mappers' nodes hresolves hnodes =>
      obtain rfl := hmappers.unique hresolves
      have hcycle := hnodes.transGen
      rw [hmappers.needs_eq] at hcycle
      refine ⟨⟨fun _ => hcycle, fun _ => ⟨_, rfl⟩⟩, fun path hpath => ⟨rfl, nodes, ?_, hnodes.two_le,
        hnodes.closed, hmappers.needs_eq ▸ hnodes.chained⟩⟩
      injection Except.error.inj hpath with hpath
      exact hpath.symm
  · rintro e rfl
    have hconfiguration : e.isConfiguration = true ∧ ∀ mapper, e ≠ .alreadyCommitted mapper := by
      cases hends with
      | mistake he => exact ⟨he.1, he.2.1⟩
      | cycle => exact ⟨rfl, fun _ heq => absurd heq (by simp)⟩
    exact ⟨hconfiguration.1, Error.ne_notCommitted hconfiguration.1, hconfiguration.2⟩

end Registry

end EntityMapping
