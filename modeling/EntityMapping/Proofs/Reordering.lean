import EntityMapping.Proofs.Completion
import EntityMapping.Proofs.Evaluation

/-! # The order of declarations

It does not matter in which order mappers are declared. Registries that are built from the same declarations hold
the same mappers, plans and fetchers, and run the same passes.
-/

namespace EntityMapping

variable {C : Type}

namespace Registry

/-! ## Registries that differ in order -/

/-- Registries that hold the same mappers, plans and fetchers, in whatever order. -/
structure Alike (r r' : Registry C) : Prop where
  metadata : r.metadata = r'.metadata
  config : r.config = r'.config
  perm : r.registrations.Perm r'.registrations
  nodup : r.order.Nodup
  fetchers : r.fetchers.Alike r'.fetchers

namespace Alike

variable {r r' : Registry C} (h : r.Alike r')
include h

theorem setting (source : DataSource) (ambient : C) : (r.setting source ambient).Alike (r'.setting source ambient) :=
  ⟨rfl, rfl, h.metadata, congrArg Config.cacheDestinations h.config, h.fetchers⟩

theorem find?_eq (key : MapperKey) : r.find? key = r'.find? key := by
  have horder : r.order.Perm r'.order := h.perm.map _
  have hnodup' := horder.nodup h.nodup
  refine Option.ext fun a => ⟨fun hfind => ?_, fun hfind => ?_⟩
  · obtain ⟨ha, rfl⟩ := mem_of_find? hfind
    exact find?_of_nodup_map (f := fun a : Registration C => a.mapper.key) hnodup' (h.perm.subset ha)
  · obtain ⟨ha, rfl⟩ := mem_of_find? hfind
    exact find?_of_nodup_map (f := fun a : Registration C => a.mapper.key) h.nodup (h.perm.symm.subset ha)

theorem map_eq (q : Query) (destination : String) (source : DataSource) (ambient : C) (heap : Heap) :
    r.map q destination source ambient heap = r'.map q destination source ambient heap := by
  have hsetting := h.setting source ambient
  have hlimit : r.config.waveLimit = r'.config.waveLimit := congrArg Config.waveLimit h.config
  unfold map mapping require mapBy
  simp only [h.find?_eq, hsetting.materialize_eq, hsetting.drain_eq hlimit, h.perm.length_eq]

end Alike

/-! ## Building -/

theorem Built.completes {metadata : Metadata} {config : Config} {declared : List (MapperDeclaration C)}
    {resolved : List (Mapper C)} {r : Registry C} (h : Built metadata config declared resolved r)
    (hnamed : metadata.Named) : Completes metadata declared resolved r.registrations := by
  have hconsistent := h.committed.consistent hnamed
  refine ⟨h.resolves, h.acyclic, ?_, h.committed, h.earlier, hconsistent, fun route hroute => ?_⟩
  -- As many mappers were committed as were declared, so none is left out.
  · have hnodup : (r.registrations.map (·.mapper)).Nodup := by
      refine List.Nodup.of_map (·.key) ?_
      rw [List.map_map]
      exact h.committed.nodup
    have hsubset : r.registrations.map (·.mapper) ⊆ resolved := fun m hm => by
      obtain ⟨a, ha, rfl⟩ := List.mem_map.mp hm
      exact h.mem a ha
    refine (hnodup.subperm hsubset).perm_of_length_le (Nat.le_of_eq ?_)
    calc resolved.length = (declared.map (·.key)).length := by rw [← h.resolves.keys_eq, List.length_map]
      _ = r.order.length := h.perm.length_eq.symm
      _ = (r.registrations.map (·.mapper)).length := by rw [order, List.length_map, List.length_map]
  -- The fetcher that was made for the route shows that it can be made.
  · cases route with
    | fetchOne path foreignKey target =>
      obtain ⟨fetcher, hget⟩ := Option.isSome_iff_exists.mp (h.supplied.one path foreignKey target hroute)
      obtain ⟨hplan, e, he, hkey⟩ := h.supplied.entity target fetcher hget
      refine ⟨fetcher, bind_eq_ok.mpr ⟨e, requireEntity_eq_ok.mpr he, ?_⟩⟩
      refine bind_eq_ok.mpr ⟨fetcher.keyColumn, Item.singlePrimaryKey_eq_ok.mpr hkey, ?_⟩
      exact bind_eq_ok.mpr ⟨fetcher.plan, requirePlan_eq_ok.mpr hplan, rfl⟩
    | fetchBack path relation key =>
      obtain ⟨fetcher, hget⟩ := Option.isSome_iff_exists.mp (h.supplied.back path relation key hroute)
      obtain ⟨hplan, hcarrier, path', relation', hroute', hforeignKey⟩ := h.supplied.reverse key fetcher hget
      rw [← hforeignKey, hconsistent path' relation' path relation key hroute' hroute] at hcarrier
      refine ⟨⟨fetcher.plan, relation.foreignKey, fetcher.carrier⟩, bind_eq_ok.mpr ⟨fetcher.plan, ?_⟩⟩
      exact ⟨requirePlan_eq_ok.mpr hplan, bind_eq_ok.mpr ⟨fetcher.carrier, hcarrier, rfl⟩⟩
    | copy | batch | embed | embedEach => trivial

theorem exists_alike {metadata : Metadata} (hnamed : metadata.Named) {config : Config}
    {declared declared' : List (MapperDeclaration C)} (hperm : declared.Perm declared') {logs : List LogRecord}
    {r : Registry C} (hbuild : ((build metadata config declared).run.run logs).1 = .ok r) (logs' : List LogRecord) :
    ∃ r', ((build metadata config declared').run.run logs').1 = .ok r' ∧ r.Alike r' := by
  obtain ⟨resolved, hbuilt⟩ := built_of_build hbuild
  have hcompletes := hbuilt.completes hnamed
  obtain ⟨mappers, hcompletes'⟩ := hcompletes.reorder hperm.symm
  obtain ⟨r', hbuild', hmetadata, hconfig, hall, hmeet'⟩ := (hcompletes'.after_build config logs').exists_ok
  obtain ⟨r₁, hbuild₁, -, -, -, hmeet⟩ := (hcompletes.after_build config logs).exists_ok
  obtain rfl := Except.ok.inj (hbuild.symm.trans hbuild₁)
  refine ⟨r', hbuild', hbuilt.metadata_eq.trans hmetadata.symm, hbuilt.config_eq.trans hconfig.symm, hall.symm, ?_, ?_⟩
  · exact hbuilt.committed.nodup
  · exact hmeet.alike hmeet'

/-- Mappers may be declared in any order. Building succeeds in all orders or in none. Then every mapper is the same
in what is described, loaded and laid out for it, since its plan is; there are fetchers for the same keys, with
the same plans and columns; and every pass gives the same result and leaves the same state, its statistics and the
loads of its journal among it, also when it fails. -/
theorem build_ignores_order {entities : List Entity} {declared declared' : List (MapperDeclaration C)}
    (hperm : declared.Perm declared') (config : Config) (logs logs' : List LogRecord) :
    let built := ((build (.ofList entities) config declared).run.run logs).1
    let built' := ((build (.ofList entities) config declared').run.run logs').1
    ((∃ r, built = .ok r) ↔ ∃ r', built' = .ok r') ∧
      ∀ r r', built = .ok r → built' = .ok r' →
        r.registrations.Perm r'.registrations ∧ (∀ key, r.find? key = r'.find? key) ∧
        (∀ key, r.fetchers.entity.get? key = r'.fetchers.entity.get? key) ∧
        (∀ key, r.fetchers.reverse.get? key = r'.fetchers.reverse.get? key) ∧
        ∀ (q : Query) (destination : String) (source : DataSource) (ambient : C) (heap : Heap),
          r.map q destination source ambient heap = r'.map q destination source ambient heap := by
  have hnamed := Metadata.named_ofList entities
  intro built built'
  refine ⟨⟨?_, ?_⟩, ?_⟩
  · rintro ⟨r, hbuild⟩
    obtain ⟨r', hbuild', -⟩ := exists_alike hnamed hperm hbuild logs'
    exact ⟨r', hbuild'⟩
  · rintro ⟨r', hbuild'⟩
    obtain ⟨r, hbuild, -⟩ := exists_alike hnamed hperm.symm hbuild' logs
    exact ⟨r, hbuild⟩
  · intro r r' hbuild hbuild'
    obtain ⟨r₁, hbuild₁, halike⟩ := exists_alike hnamed hperm hbuild logs'
    obtain rfl := Except.ok.inj (hbuild'.symm.trans hbuild₁)
    exact ⟨halike.perm, halike.find?_eq, halike.fetchers.entity, halike.fetchers.reverse, halike.map_eq⟩

/-- Orders may be declared before their customers or after them. -/
theorem orders_ignore_order : ∃ (r r' : Registry Unit) (mapped : Mapped),
    ((build Sample.metadata {} Sample.declared).run.run []).1 = .ok r ∧
      ((build Sample.metadata {} Sample.declared.reverse).run.run []).1 = .ok r' ∧
      (r.map (Query.all "Order") "OrderView" Sample.memory.source () .empty).1 = .ok mapped ∧
      (r'.map (Query.all "Order") "OrderView" Sample.memory.source () .empty).1 = .ok mapped := by
  obtain ⟨r, mapped, hbuild, hmapped, -⟩ := Sample.exists_pass
  obtain ⟨hbuilds, hsame⟩ := build_ignores_order (List.reverse_perm Sample.declared).symm {} [] []
  obtain ⟨r', hbuild'⟩ := hbuilds.mp ⟨r, hbuild⟩
  obtain ⟨-, -, -, -, hmap⟩ := hsame r r' hbuild hbuild'
  exact ⟨r, r', mapped, hbuild, hbuild', hmapped, hmap (Query.all "Order") "OrderView" _ () .empty ▸ hmapped⟩

end Registry

end EntityMapping
