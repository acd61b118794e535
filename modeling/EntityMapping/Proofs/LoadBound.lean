import EntityMapping.Proofs.Conformance
import EntityMapping.Proofs.Pass.Loads
import EntityMapping.Proofs.WaveBound

/-! # How many loads a pass takes

A pass loads its rows by relations and not by rows. Its number of loads is bounded by the includes of the
mappers whose rows it loads, and does not depend on how many rows there are.
-/

namespace EntityMapping

variable {C : Type}

/-! ## Queries without keys -/

theorem materialize_of_matchesNothing (setting : Setting C) (plan : Plan C) {q : Query}
    (h : q.matchesNothing = true) : materialize setting plan q = pure [] := by
  have hwanted : (q.withIncludes plan.includes).matchesNothing = true := h
  have hfetch := Source.fetch_of_matchesNothing hwanted setting.source setting.metadata
  unfold materialize
  dsimp only
  rw [hfetch]
  rfl

/-! ## Allowances -/

/-- The groups that were resolved, in order. -/
def Journal.groups (j : Journal) : List GroupKey :=
  j.toList.filterMap fun
    | .resolving group _ => some group
    | _ => none

def Errand.group? : Errand → Option GroupKey
  | .group g => some g
  | .load _ => none

theorem Journal.groups_eq (j : Journal) : j.groups = j.errands.filterMap (·.group?) := by
  unfold groups errands
  rw [List.filterMap_filterMap]
  refine List.filterMap_congr fun e _ => ?_
  cases e <;> rfl

theorem filterMap_errandsOf {β : Type} (f : Errand → Option β) (groups : List (GroupKey × List LoadRecord)) :
    (errandsOf groups).filterMap f =
      groups.flatMap fun g => (f (.group g.1)).toList ++ g.2.filterMap fun record => f (.load record) := by
  unfold errandsOf
  rw [List.filterMap_flatMap]
  refine List.flatMap_congr fun g _ => ?_
  cases h : f (.group g.1) <;> simp [h, List.filterMap_map]

namespace Registry

/-- The relations that a registered mapper loads along with its rows. -/
def includesOf (r : Registry C) (key : MapperKey) : List Include :=
  match r.find? key with
  | some registration => registration.plan.includes
  | none => []

/-- The loads that a group of requests may take: one for the rows that it asks for, and one for every
include of their mapper. Processors load nothing. -/
def allowance (r : Registry C) : GroupKey → Nat
  | .entity mapper => 1 + Include.countAll (r.includesOf mapper)
  | .reverse fetcher => 1 + Include.countAll (r.includesOf fetcher.mapper)
  | .batch _ => 0

theorem Built.allows {metadata : Metadata} {config : Config} {declared : List (MapperDeclaration C)}
    {resolved : List (Mapper C)} {r : Registry C} (h : Built metadata config declared resolved r)
    (source : DataSource) (ambient : C) : (r.setting source ambient).Allows r.allowance := by
  have hincludes : ∀ key plan, (plansOf r.registrations).get? key = some plan →
      r.includesOf key = plan.includes := by
    intro key plan hget
    obtain ⟨a, ha, rfl, rfl⟩ := h.committed.get?_plansOf.mp hget
    unfold includesOf
    rw [h.find?_eq ha]
  constructor
  · intro key fetcher hget
    exact (congrArg (1 + Include.countAll ·) (hincludes _ _ (h.supplied.entity key fetcher hget).1)).ge
  · intro key fetcher hget
    exact (congrArg (1 + Include.countAll ·) (hincludes _ _ (h.supplied.reverse key fetcher hget).1)).ge

/-! ## Passes -/

/-- The loads of a pass so far: those of its root rows, and those of the groups that were resolved. -/
structure LoadsOf (r : Registry C) (q : Query) (destination : String) (roots : List LoadRecord)
    (groups : List (GroupKey × List LoadRecord)) (s : PassState C) : Prop where
  errands_eq : s.journal.errands = roots.map .load ++ errandsOf groups
  counted : s.stats.loads = roots.length + (groups.flatMap (·.2)).length
  root : (q.withIncludes (r.includesOf ⟨q.entity, destination⟩)).LoadsOf roots
  group : ∀ g ∈ groups, g.1.LoadsOf r.allowance g.2

namespace LoadsOf

variable {r : Registry C} {q : Query} {destination : String} {roots : List LoadRecord}
  {groups : List (GroupKey × List LoadRecord)} {s : PassState C}
  (h : r.LoadsOf q destination roots groups s)
include h

theorem loads_eq : s.journal.loads = roots ++ groups.flatMap (·.2) := by
  rw [Journal.loads_eq, h.errands_eq, List.filterMap_append, filterMap_errandsOf]
  simp [Errand.record?]

theorem counted_eq : s.stats.loads = s.journal.loads.length := by
  rw [h.counted, h.loads_eq, List.length_append]

theorem groups_eq : s.journal.groups = groups.map (·.1) := by
  rw [Journal.groups_eq, h.errands_eq, List.filterMap_append, filterMap_errandsOf, List.filterMap_map]
  simp [Errand.group?, Function.comp_def, List.map_eq_flatMap]

theorem length_le : s.journal.loads.length ≤
    1 + Include.countAll (q.withIncludes (r.includesOf ⟨q.entity, destination⟩)).includes +
      (s.journal.groups.map r.allowance).sum := by
  have hgroups : (groups.flatMap (·.2)).length ≤ ((groups.map (·.1)).map r.allowance).sum := by
    rw [List.length_flatMap, List.map_map]
    exact List.sum_le_sum fun g hg => (h.group g hg).length_le
  have hroots := h.root.length_le
  rw [h.loads_eq, h.groups_eq, List.length_append]
  omega

end LoadsOf

theorem Built.loadsOf_mapping {metadata : Metadata} {config : Config} {declared : List (MapperDeclaration C)}
    {resolved : List (Mapper C)} {r : Registry C} (h : Built metadata config declared resolved r) (q : Query)
    (destination : String) (source : DataSource) (ambient : C) (heap : Heap) :
    After (r.mapping q destination source ambient) (.initial heap) fun result s =>
      (∃ roots groups, r.LoadsOf q destination roots groups s) ∧
        ∀ mapped, result = .ok mapped → mapped.stats = s.stats := by
  unfold mapping
  refine After.ofExcept_bind (fun a hfind => ?_) fun _ _ =>
    ⟨⟨[], [], rfl, rfl, .none _, by simp⟩, fun _ heq => by cases heq⟩
  have hincludes : r.includesOf ⟨q.entity, destination⟩ = a.plan.includes := by
    unfold includesOf
    rw [require_eq_ok.mp hfind]
  unfold mapBy
  dsimp only
  rw [After.bind_iff]
  apply (made_materialize (r.setting source ambient) a.plan q (.initial heap)).mono
  intro result s ⟨roots, hmade, hroots⟩
  rw [← hincludes] at hroots
  -- The loads of the roots are accounted for before the first wave.
  have hstart : r.LoadsOf q destination roots [] s := by
    refine ⟨?_, ?_, hroots, by simp⟩
    · rw [hmade.errands_eq]
      simp [PassState.initial, Journal.errands, errandsOf]
    · rw [hmade.loads_eq]
      simp [PassState.initial]
  cases result with
  | error e => exact ⟨⟨roots, [], hstart⟩, fun _ heq => by cases heq⟩
  | ok mapped =>
    have hfetchable := hmade.fetchable (by simp [PassState.initial])
    rw [either_ok, After.bind_iff]
    apply (spent_drain (h.allows source ambient) _ hfetchable).mono
    rintro drained s₁ ⟨⟨groups, herrands, hloads, hgroups⟩, -⟩
    have hdrained : r.LoadsOf q destination roots groups s₁ := by
      refine ⟨?_, ?_, hroots, hgroups⟩
      · rw [herrands, hstart.errands_eq]
        simp [errandsOf]
      · rw [hloads, hstart.counted]
        simp
    cases drained with
    | error e => exact ⟨⟨roots, groups, hdrained⟩, fun _ heq => by cases heq⟩
    | ok =>
      rw [either_ok, After.bind_iff, After.get_iff, either_ok]
      unfold PassM.debug
      rw [After.bind_iff, PassM.record_iff, either_ok, After.pure_iff]
      refine ⟨⟨roots, groups, ?_, hdrained.counted, hroots, hgroups⟩, fun mapped' heq => ?_⟩
      · rw [Journal.errands_add, hdrained.errands_eq]
        exact List.append_nil _
      · exact Except.ok.inj heq ▸ rfl

theorem loads_of_matchesNothing (r : Registry C) {q : Query} (h : q.matchesNothing = true) (destination : String)
    (source : DataSource) (ambient : C) (heap : Heap) :
    After (r.mapping q destination source ambient) (.initial heap) fun _ s => s.journal.loads = [] := by
  unfold mapping
  refine After.ofExcept_bind (fun a _ => ?_) fun _ _ => rfl
  unfold mapBy
  dsimp only
  rw [materialize_of_matchesNothing _ _ h, After.bind_iff, After.pure_iff, either_ok, After.bind_iff]
  unfold After
  rw [drain_idle (by simp [PassState.Busy, PassState.initial])]
  rfl

/-- A pass makes one load for its root rows and at most one for every relation that they include, and the same
goes for every group of requests that a fetcher resolves, however many rows the source answers with. The loads
are counted as they are made. But for the load of the root rows, every load asks by keys, each once, and
fetchers ask only by keys that rows can be fetched by. A query without keys loads nothing. -/
theorem loads_by_relation {metadata : Metadata} {config : Config} {declared : List (MapperDeclaration C)}
    {logs : List LogRecord} {r : Registry C} (hbuild : ((build metadata config declared).run.run logs).1 = .ok r)
    (q : Query) (destination : String) (source : DataSource) (ambient : C) (heap : Heap) :
    let pass := r.map q destination source ambient heap
    let journal := pass.2.journal
    pass.2.stats.loads = journal.loads.length ∧
      (∀ mapped, pass.1 = .ok mapped → mapped.stats.loads = journal.loads.length) ∧
      journal.loads.length ≤
        1 + Include.countAll (q.withIncludes (r.includesOf ⟨q.entity, destination⟩)).includes +
          (journal.groups.map r.allowance).sum ∧
      (∃ (roots : List LoadRecord) (groups : List (GroupKey × List LoadRecord)),
        journal.errands = roots.map .load ++ errandsOf groups ∧
          (∀ record ∈ roots.head?, record.filter = q.filter) ∧ (∀ record ∈ roots.tail, record.IsKeyed) ∧
          ∀ g ∈ groups, g.1.LoadsOf r.allowance g.2) ∧
      (q.matchesNothing = true → journal.loads = [] ∧
        ∀ l, (Source.fetch source metadata q).run.run l = (.ok [], l)) := by
  intro pass journal
  obtain ⟨resolved, hbuilt⟩ := built_of_build hbuild
  obtain ⟨⟨roots, groups, hloads⟩, hstats⟩ := hbuilt.loadsOf_mapping q destination source ambient heap
  refine ⟨hloads.counted_eq, fun mapped hmapped => ?_, hloads.length_le, ?_, fun hnothing => ⟨?_, fun l => ?_⟩⟩
  · rw [hstats mapped hmapped]
    exact hloads.counted_eq
  · exact ⟨roots, groups, hloads.errands_eq, hloads.root.filter_eq, hloads.root.keyed, hloads.group⟩
  · exact loads_of_matchesNothing r hnothing destination source ambient heap
  · rw [Source.fetch_of_matchesNothing hnothing]
    rfl

/-- Mapping orders takes one load for the orders, and the loads of the groups of customers. -/
theorem loads_of_orders_le : ∃ r : Registry Unit,
    ((build Sample.metadata {} Sample.declared).run.run []).1 = .ok r ∧
      ∀ source heap, let s := (r.map (Query.all "Order") "OrderView" source () heap).2
        s.journal.loads.length ≤ 1 + (s.journal.groups.map r.allowance).sum := by
  have h : (((build Sample.metadata {} Sample.declared).run.run []).1.toOption.any fun r =>
      Include.countAll ((Query.all "Order").withIncludes (r.includesOf ⟨"Order", "OrderView"⟩)).includes = 0) =
        true := by cbv
  obtain ⟨r, hbuild, hincludes⟩ := exists_ok_of_any h
  refine ⟨r, hbuild, fun source heap => ?_⟩
  obtain ⟨-, -, hle, -⟩ := loads_by_relation hbuild (Query.all "Order") "OrderView" source () heap
  rwa [show (Query.all "Order").entity = "Order" from rfl, of_decide_eq_true hincludes] at hle

end Registry

end EntityMapping
