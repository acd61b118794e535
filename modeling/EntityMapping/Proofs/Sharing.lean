import EntityMapping.Proofs.Viewing

/-! # Shared destinations

A registry of tame mappers maps every query to the same JSON, and fails for the same queries, whether rows with
one primary key share their destination or not. The view of a row knows nothing of objects, and a pass shows
the views of its rows either way.
-/

namespace EntityMapping

variable {C : Type}

/-! ## Configurations -/

namespace Registry

/-- The same registry, run with another configuration. -/
def configured (r : Registry C) (config : Config) : Registry C := { r with config }

theorem build_configured (metadata : Metadata) (config config' : Config)
    (declared : List (MapperDeclaration C)) :
    build metadata config' declared = (·.configured config') <$> build metadata config declared := by
  unfold build Commission.equip
  simp only [map_bind, map_pure]
  rfl

theorem ok_configured_of_build {metadata : Metadata} {config : Config} {declared : List (MapperDeclaration C)}
    {logs : List LogRecord} {r : Registry C}
    (h : ((build metadata config declared).run.run logs).1 = .ok r) (config' : Config) :
    ((build metadata config' declared).run.run logs).1 = .ok (r.configured config') := by
  change After (build metadata config' declared) logs fun result _ => result = .ok (r.configured config')
  rw [build_configured metadata config config' declared, After.map_iff]
  exact congrArg (Except.map (·.configured config')) h

end Registry

namespace Stage

variable {σ : Stage C}

/-- The same stage, with another configuration. -/
def configured (σ : Stage C) (config : Config) : Stage C :=
  { σ with config, registry := σ.registry.configured config }

theorem Tame.configured (h : σ.Tame) {config : Config} (hunlimited : config.waveLimit = none) :
    (σ.configured config).Tame where
  registry := ⟨{ h.registry with config_eq := rfl }, h.registry.named, h.registry.apart, h.registry.tame, hunlimited⟩
  regular := h.regular
  within := h.within
  closed := h.closed
  mem := h.mem
  item := h.item

theorem feasible_configured {config : Config} : (σ.configured config).Feasible ↔ σ.Feasible :=
  ⟨fun h a ha row hread i hi => ⟨(h a ha row hread i hi).takes, (h a ha row hread i hi).asks⟩,
    fun h a ha row hread i hi => ⟨(h a ha row hread i hi).takes, (h a ha row hread i hi).asks⟩⟩

theorem view_configured (σ : Stage C) (config : Config) (depth : Nat) :
    (σ.configured config).view depth = σ.view depth := by
  induction depth with
  | zero => rfl
  | succ depth ih =>
    funext key row
    unfold view
    rw [ih]
    rfl

/-! ## Passes -/

/-- A pass succeeds exactly when its query can be loaded and every item can do its work, and shows the views of
the rows of the query. -/
theorem Tame.map_shows (h : σ.Tame) {a : Registration C} (ha : a ∈ σ.registry.registrations) {q : Query}
    (hentity : q.entity = a.mapper.key.source) (hdistinct : Include.DistinctAll q.includes)
    (hreads : ∀ key row, σ.reads key row ↔ Reads σ.metadata σ.memory σ.registry.mappers a.mapper.key
      (σ.memory.matching q.entity q.filter) key row) {destination : String}
    (hfind : σ.registry.find? ⟨q.entity, destination⟩ = some a) :
    let pass := σ.registry.map q destination σ.memory.source σ.ambient σ.heap
    ((∃ mapped, pass.1 = .ok mapped) ↔ q.Loads σ.metadata ∧ σ.Feasible) ∧
      ∀ mapped, pass.1 = .ok mapped → mapped.toJson pass.2.heap =
        ((σ.memory.matching q.entity q.filter).mapM
          (σ.view σ.registry.order.length a.mapper.key)).map .array := by
  intro pass
  have hpass := h.after_mapping ha hentity hdistinct (fun row hrow => (hreads _ _).mpr (.root hrow))
    (Heap.Keeps.refl σ.heap) hfind
  change either _ _ pass.1 pass.2 at hpass
  obtain ⟨result, s⟩ := pass
  cases result with
  | error e =>
    refine ⟨⟨?_, fun hboth => absurd hboth hpass⟩, fun _ hok => by cases hok⟩
    rintro ⟨mapped, hok⟩
    cases hok
  | ok mapped =>
    obtain ⟨hloads, hfeasible, hroots⟩ := hpass
    refine ⟨⟨fun _ => ⟨hloads, hfeasible fun key row => (hreads key row).mp⟩, fun _ => ⟨mapped, rfl⟩⟩, ?_⟩
    intro mapped' hok
    obtain rfl := Except.ok.inj hok
    unfold Mapped.toJson
    rw [mapM_eq_mapM_of_forall₂ (List.Forall₂.flip (hroots.imp fun _ _ hview => hview _ (Nat.le_refl _)))]

end Stage

namespace Registry

theorem not_ok_of_unregistered {r : Registry C} {q : Query} {destination : String}
    (hfind : r.find? ⟨q.entity, destination⟩ = none) (source : DataSource) (ambient : C) (heap : Heap)
    (mapped : Mapped) : (r.map q destination source ambient heap).1 ≠ .ok mapped := by
  have hpass : After (r.mapping q destination source ambient) (.initial heap)
      fun result _ => result ≠ .ok mapped := by
    unfold mapping require
    rw [hfind]
    exact fun hok => by cases hok
  exact hpass

/-- Sharing destinations shows in no result. Passes of one query, with and without it, both succeed or both fail,
and what they map has the same JSON. This takes items that read along paths and run pure code only, on columns
and without hooks, processors that look keys up in tables, cells that are scalars, rows with one primary key
that are identical, relations whose names are not those of joining columns, and no limit on waves. The includes
of a query name no relation twice, as those that are added one by one do not. -/
theorem map_ignores_sharing {entities : List Entity} {declared : List (MapperDeclaration C)}
    {tables : Nat → Key → Option Value} {heap : Heap} (hclosed : heap.Closed)
    (hwithin : ∀ id k v, tables id k = some v → v.Within heap.size)
    (htame : ∀ d ∈ declared, d.Tame (.ofList entities) tables heap.size)
    (hapart : (Metadata.ofList entities).NamesApart) {m : Source.Memory}
    (hregular : m.Regular (.ofList entities)) {logs : List LogRecord} {shared unshared : Registry C}
    (hshared : ((build (.ofList entities) { waveLimit := none, cacheDestinations := true }
      declared).run.run logs).1 = .ok shared)
    (hunshared : ((build (.ofList entities) { waveLimit := none, cacheDestinations := false }
      declared).run.run logs).1 = .ok unshared) (q : Query) (hdistinct : Include.DistinctAll q.includes)
    (destination : String) (ambient : C) :
    let pass := shared.map q destination m.source ambient heap
    let pass' := unshared.map q destination m.source ambient heap
    ((∃ mapped, pass.1 = .ok mapped) ↔ ∃ mapped, pass'.1 = .ok mapped) ∧
      ∀ mapped mapped', pass.1 = .ok mapped → pass'.1 = .ok mapped' →
        mapped.toJson pass.2.heap = mapped'.toJson pass'.2.heap := by
  obtain ⟨resolved, hregistry⟩ := tame_of_build hapart htame rfl hshared
  obtain rfl : shared.configured { waveLimit := none, cacheDestinations := false } = unshared :=
    Except.ok.inj ((ok_configured_of_build hshared _).symm.trans hunshared)
  cases hfind : shared.find? ⟨q.entity, destination⟩ with
  | none =>
    have hfind' : (shared.configured { waveLimit := none, cacheDestinations := false }).find?
        ⟨q.entity, destination⟩ = none := hfind
    have hfail := not_ok_of_unregistered hfind m.source ambient heap
    have hfail' := not_ok_of_unregistered hfind' m.source ambient heap
    refine ⟨iff_of_false ?_ ?_, fun mapped _ hok => absurd hok (hfail mapped)⟩
    · rintro ⟨mapped, hok⟩
      exact hfail mapped hok
    · rintro ⟨mapped, hok⟩
      exact hfail' mapped hok
  | some a =>
    obtain ⟨ha, hkey⟩ := mem_of_find? hfind
    have hentity : q.entity = a.mapper.key.source := by rw [hkey]
    let σ : Stage C := ⟨.ofList entities, { waveLimit := none, cacheDestinations := true }, declared, resolved,
      shared, m, tables, heap, ambient,
      Reads (.ofList entities) m shared.mappers a.mapper.key (m.matching q.entity q.filter)⟩
    have hσ : σ.Tame := by
      refine ⟨hregistry, hregular, hwithin, hclosed, fun key row => hregistry.mem_rows ?_, ?_⟩
      · exact hentity ▸ m.matching_subset _ _
      · exact fun b hb row hread i hi dependency hneeds next hnext =>
          .item (List.mem_map_of_mem hb) hread hi hneeds hnext
    -- Views know nothing of the configuration, so both passes show the same.
    obtain ⟨hok, hjson⟩ := hσ.map_shows ha hentity hdistinct (fun _ _ => Iff.rfl) hfind
    have hσ' : (σ.configured { waveLimit := none, cacheDestinations := false }).Tame := hσ.configured rfl
    obtain ⟨hok', hjson'⟩ := hσ'.map_shows ha hentity hdistinct (fun _ _ => Iff.rfl) hfind
    rw [Stage.feasible_configured] at hok'
    refine ⟨hok.trans hok'.symm, fun mapped mapped' hmapped hmapped' => ?_⟩
    rw [Stage.view_configured] at hjson'
    exact (hjson mapped hmapped).trans (hjson' mapped' hmapped').symm

end Registry

/-! ## Orders of one customer -/

namespace Sample

def crowded : Source.Memory := .ofTables [
  ("Customer", [⟨[("id", .int 1), ("name", .string "Ada")]⟩]),
  ("Order", [⟨[("id", .int 7), ("customer_id", .int 1)]⟩, ⟨[("id", .int 8), ("customer_id", .int 1)]⟩])]

def regions : List (Key × Value) := [(.int 1, .string "north")]

/-- The customer of an order is mapped in place and fetched, and a region is looked up for it. -/
def enriched : List (MapperDeclaration Unit) := [
  ⟨⟨"Order", "OrderView"⟩,
    [{ destination := "id", declared := some .int, transposer := some fun v _ => .done v },
      { destination := "customer", mapped := some "CustomerView" },
      { destination := "buyer", source := some (.path ["customer"]), mapped := some "CustomerView",
        style := some .fetch }], []⟩,
  ⟨⟨"Order", "OrderTag"⟩,
    [{ destination := "region", source := some (.path ["customer_id"]),
       style := some (.batch (Batch.keyed 0 "Regions" fun _ _ => .done regions)) }], []⟩,
  ⟨⟨"Customer", "CustomerView"⟩, [{ destination := "id" }, { destination := "name" }], []⟩]

def orders : Query := (Query.all "Order").including (.new "customer")

theorem regular_crowded : crowded.Regular metadata := .of_entries (by decide) (by decide)

theorem tame_enriched : ∀ d ∈ enriched, d.Tame metadata (fun _ k => Dict.lookup k regions) Heap.empty.size := by
  intro d hd
  simp only [enriched, List.mem_cons, List.not_mem_nil, or_false] at hd
  rcases hd with rfl | rfl | rfl <;> refine ⟨fun i hi => ?_, rfl⟩ <;>
    simp only [List.mem_cons, List.not_mem_nil, or_false] at hi
  · rcases hi with rfl | rfl | rfl
    · refine ⟨⟨_, rfl⟩, rfl, fun _ => rfl, by simp, by simp, ?_, by simp⟩
      rintro _ ⟨⟩
      exact ⟨fun v _ => Action.isPure_done v, fun v _ w hv hw => Except.ok.inj hw ▸ hv⟩
    · exact ⟨⟨_, rfl⟩, rfl, by simp, by simp, by simp, by simp, by simp⟩
    · exact ⟨⟨_, rfl⟩, rfl, by simp, by simp, by simp, by simp, by simp⟩
  · obtain rfl := hi
    refine ⟨⟨_, rfl⟩, rfl, fun _ => rfl, by simp, by simp, by simp, ?_⟩
    rintro _ ⟨⟩
    exact ⟨_, rfl, fun _ _ => ⟨_, Action.isPure_done _, rfl, fun _ _ => rfl⟩⟩
  · rcases hi with rfl | rfl <;>
      exact ⟨⟨_, rfl⟩, rfl, fun _ => rfl, by simp, by simp, by simp, by simp⟩

theorem exists_mapped : ∃ (r : Registry Unit) (mapped : Mapped),
    ((Registry.build metadata { waveLimit := none, cacheDestinations := true } enriched).run.run []).1 = .ok r ∧
      (r.map orders "OrderView" crowded.source () .empty).1 = .ok mapped := by
  have h : (((Registry.build metadata { waveLimit := none, cacheDestinations := true }
      enriched).run.run []).1.toOption.any fun r =>
        (r.map orders "OrderView" crowded.source () .empty).1.toOption.any fun _ => true) = true := by cbv
  obtain ⟨r, hbuild, hpass⟩ := exists_ok_of_any h
  obtain ⟨mapped, hmapped, -⟩ := exists_ok_of_any hpass
  exact ⟨r, mapped, hbuild, hmapped⟩

end Sample

namespace Registry

theorem orders_ignore_sharing : ∃ (shared unshared : Registry Unit) (mapped mapped' : Mapped),
    ((build Sample.metadata { waveLimit := none, cacheDestinations := true } Sample.enriched).run.run []).1 =
      .ok shared ∧
    ((build Sample.metadata { waveLimit := none, cacheDestinations := false } Sample.enriched).run.run []).1 =
      .ok unshared ∧
    let pass := shared.map Sample.orders "OrderView" Sample.crowded.source () .empty
    let pass' := unshared.map Sample.orders "OrderView" Sample.crowded.source () .empty
    pass.1 = .ok mapped ∧ pass'.1 = .ok mapped' ∧ mapped.toJson pass.2.heap = mapped'.toJson pass'.2.heap := by
  obtain ⟨shared, mapped, hshared, hmapped⟩ := Sample.exists_mapped
  have hunshared := ok_configured_of_build hshared { waveLimit := none, cacheDestinations := false }
  have hwithin : ∀ (id : Nat) k v, Dict.lookup k Sample.regions = some v → v.Within Heap.empty.size := by
    intro _ k v hv
    have hmem : (k, v) ∈ Sample.regions := Dict.mem_entries_of_get? (d := ⟨Sample.regions⟩) hv
    obtain ⟨-, rfl⟩ := Prod.mk.inj (List.mem_singleton.mp hmem)
    trivial
  have hdistinct : Include.DistinctAll Sample.orders.includes :=
    Query.distinctAll_including (q := Query.all "Order") trivial trivial
  obtain ⟨hok, hjson⟩ := map_ignores_sharing (fun _ ho => absurd ho (Nat.not_lt_zero _)) hwithin Sample.tame_enriched
    (Metadata.namesApart_of_entries (by decide)) Sample.regular_crowded hshared hunshared _ hdistinct "OrderView" ()
  obtain ⟨mapped', hmapped'⟩ := hok.mp ⟨mapped, hmapped⟩
  exact ⟨shared, _, mapped, mapped', hshared, hunshared, hmapped, hmapped', hjson _ _ hmapped hmapped'⟩

end Registry

/-! ## A relation that is named twice -/

namespace Sample

/-- Orders belong to customers, who belong to regions. -/
def regional : List Entity := [
  (((Entity.new "Customer").withKey "id" .int).withColumn "region_id" .int).withRelation
    ⟨"region", "Region", .belongsTo, "region_id", "id"⟩,
  (((Entity.new "Order").withKey "id" .int).withColumn "customer_id" .int).withRelation
    ⟨"customer", "Customer", .belongsTo, "customer_id", "id"⟩,
  ((Entity.new "Region").withKey "id" .int).withColumn "name" .string]

def northern : Source.Memory := .ofTables [
  ("Region", [⟨[("id", .int 5), ("name", .string "north")]⟩]),
  ("Customer", [⟨[("id", .int 1), ("region_id", .int 5)]⟩]),
  ("Order", [⟨[("id", .int 7), ("customer_id", .int 1)]⟩])]

/-- The customer of an order is mapped in place and fetched, and shows the name of its region. -/
def sited : List (MapperDeclaration Unit) := [
  ⟨⟨"Order", "OrderView"⟩,
    [{ destination := "customer", mapped := some "CustomerView" },
      { destination := "buyer", source := some (.path ["customer"]), mapped := some "CustomerView",
        style := some .fetch }], []⟩,
  ⟨⟨"Customer", "CustomerView"⟩, [{ destination := "region", source := some (.path ["region", "name"]) }], []⟩]

theorem regular_northern : northern.Regular (.ofList regional) := .of_entries (by decide) (by decide)

theorem tame_sited : ∀ d ∈ sited, d.Tame (.ofList regional) (fun _ _ => none) Heap.empty.size := by
  intro d hd
  simp only [sited, List.mem_cons, List.not_mem_nil, or_false] at hd
  rcases hd with rfl | rfl <;> refine ⟨fun i hi => ?_, rfl⟩ <;>
    simp only [List.mem_cons, List.not_mem_nil, or_false] at hi
  · rcases hi with rfl | rfl <;>
      exact ⟨⟨_, rfl⟩, rfl, by simp, by simp, by simp, by simp, by simp⟩
  · obtain rfl := hi
    exact ⟨⟨_, rfl⟩, rfl, fun _ => rfl, by simp, by simp, by simp, by simp⟩

/-- Whether the buyer of the first order shows a region. -/
def showsRegion : Json → Bool
  | .array (order :: _) =>
    match order.member? "buyer" with
    | some buyer =>
      match buyer.member? "region" with
      | some (.string _) => true
      | _ => false
    | none => false
  | _ => false

theorem exists_shown (caching : Bool) : ∃ (r : Registry Unit) (mapped : Mapped) (json : Json),
    ((Registry.build (.ofList regional) { waveLimit := none, cacheDestinations := caching } sited).run.run []).1 =
      .ok r ∧
    let pass := r.map customersTwice "OrderView" northern.source () .empty
    pass.1 = .ok mapped ∧ mapped.toJson pass.2.heap = .ok json ∧ showsRegion json = !caching := by
  have h : (((Registry.build (.ofList regional) { waveLimit := none, cacheDestinations := caching }
      sited).run.run []).1.toOption.any fun r =>
        let pass := r.map customersTwice "OrderView" northern.source () .empty
        pass.1.toOption.any fun mapped =>
          (mapped.toJson pass.2.heap).toOption.any fun json => showsRegion json = !caching) = true := by
    cases caching <;> cbv
  obtain ⟨r, hbuild, hpass⟩ := exists_ok_of_any h
  obtain ⟨mapped, hmapped, hrendered⟩ := exists_ok_of_any hpass
  obtain ⟨json, hjson, hshows⟩ := exists_ok_of_any hrendered
  exact ⟨r, mapped, json, hbuild, hmapped, hjson, of_decide_eq_true hshows⟩

/-- The second time the customer is attached without its region. The destination that is made of it shows none, and
where it is shared the buyer, which is fetched with its region, shows none either. -/
theorem twice_shows_sharing : ∃ (shared unshared : Registry Unit) (mapped mapped' : Mapped),
    (∀ d ∈ sited, d.Tame (.ofList regional) (fun _ _ => none) Heap.empty.size) ∧
      (Metadata.ofList regional).NamesApart ∧ northern.Regular (.ofList regional) ∧
    ((Registry.build (.ofList regional) { waveLimit := none, cacheDestinations := true } sited).run.run []).1 =
      .ok shared ∧
    ((Registry.build (.ofList regional) { waveLimit := none, cacheDestinations := false } sited).run.run []).1 =
      .ok unshared ∧
    let pass := shared.map customersTwice "OrderView" northern.source () .empty
    let pass' := unshared.map customersTwice "OrderView" northern.source () .empty
    pass.1 = .ok mapped ∧ pass'.1 = .ok mapped' ∧ mapped.toJson pass.2.heap ≠ mapped'.toJson pass'.2.heap := by
  obtain ⟨shared, mapped, json, hshared, hmapped, hjson, hhides⟩ := exists_shown true
  obtain ⟨unshared, mapped', json', hunshared, hmapped', hjson', hshows⟩ := exists_shown false
  refine ⟨shared, unshared, mapped, mapped', tame_sited, Metadata.namesApart_of_entries (by decide),
    regular_northern, hshared, hunshared, hmapped, hmapped', fun heq => ?_⟩
  obtain rfl := Except.ok.inj (hjson.symm.trans (heq.trans hjson'))
  cases hhides.symm.trans hshows

end Sample

end EntityMapping
