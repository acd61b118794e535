import EntityMapping.Proofs.Purity
import EntityMapping.Proofs.Routing

/-! # Tame mappers

A tame mapper maps rows along paths and works on columns with pure code only. Its plan follows the relations
of these paths, and loads exactly along them.
-/

namespace EntityMapping

variable {C : Type}

/-! ## Declarations -/

/-- The item reads along a path whose shape the metadata gives. Unless it is mapped, the path ends in a
column, and pure code may transpose its value, or that of a table for it. There are `n` objects before. -/
structure Declaration.Tame (metadata : Metadata) (tables : Nat → Key → Option Value) (n : Nat)
    (owner : MapperKey) (d : Declaration C) : Prop where
  path : ∃ path, d.accessor = .path path
  unshaped : d.sourceShape = none
  column : d.mapped = none → d.resolveSource owner metadata = .ok .scalar
  untyped : d.mapped ≠ none → d.declared = none
  untransposed : d.mapped ≠ none → d.transposer = none
  pure : ∀ f, d.transposer = some f → Transposer.IsPure n f
  keyed : ∀ p, d.style = some (.batch p) → p.LooksUp (tables p.id)

structure MapperDeclaration.Tame (metadata : Metadata) (tables : Nat → Key → Option Value) (n : Nat)
    (d : MapperDeclaration C) : Prop where
  items : ∀ i ∈ d.items, i.Tame metadata tables n d.key
  unhooked : d.after = []

/-! ## Items -/

/-- A column that pure code works on. -/
structure Item.IsColumn (tables : Nat → Key → Option Value) (n : Nat) (i : Item C) : Prop where
  scalar : i.sourceShape = .scalar
  shape : ∃ type, i.destinationShape = .scalar type
  unfetched : i.style.isFetch = false
  pure : ∀ f, i.transposer = some f → Transposer.IsPure n f
  keyed : ∀ p, i.style = .batch p → p.LooksUp (tables p.id)

/-- Rows that are mapped, without any code. -/
structure Item.IsMapped (i : Item C) : Prop where
  needs : ∃ dependency, i.dependency? = some dependency
  transposer_eq : i.transposer = none
  unbatched : ∀ processor, i.style ≠ .batch processor

theorem Item.IsColumn.dependency?_eq {tables : Nat → Key → Option Value} {n : Nat} {i : Item C}
    (h : i.IsColumn tables n) : i.dependency? = none := Item.dependency?_of_scalar h.scalar

/-- What resolving keeps of a tame declaration. -/
structure Item.Tame (metadata : Metadata) (tables : Nat → Key → Option Value) (n : Nat) (owner : MapperKey)
    (i : Item C) : Prop where
  path : ∃ path, i.source = .path path ∧ metadata.Ends owner.source path i.sourceShape
  kind : i.IsColumn tables n ∨ i.IsMapped
  expected_eq : i.expected = i.destinationShape

theorem Declaration.unmapped_of_scalar {d : Declaration C} {component : String} {style : Style C}
    {registered : List MapperKey} {shape : DestinationShape}
    (hshape : d.resolveDestination component style .scalar registered = .ok shape) : d.mapped = none := by
  cases h : d.mapped with
  | none => rfl
  | some destination =>
    unfold resolveDestination at hshape
    rw [h] at hshape
    cases style <;> simp at hshape

theorem Declaration.Tame.item {metadata : Metadata} {tables : Nat → Key → Option Value} {n : Nat}
    {owner : MapperKey} {d : Declaration C} (h : d.Tame metadata tables n owner) (hnamed : metadata.Named)
    {registered : List MapperKey} {i : Item C} (hi : d.resolve owner metadata registered = .ok i) :
    i.Tame metadata tables n owner := by
  obtain ⟨path, hpath⟩ := h.path
  have hends := Declaration.ends_of_resolve hnamed hpath h.unshaped hi
  have hdependency : ∀ destination, d.mapped = some destination → _ := fun _ hmapped => d.exists_dependency hmapped hi
  obtain ⟨component, sourceShape, destinationShape, hsource, hdestination, rfl⟩ :=
    Declaration.resolve_eq_ok hi
  -- Without a mapper the item is a column, with one it shows an object or a list.
  cases hmapped : d.mapped with
  | none =>
    obtain rfl := Except.ok.inj (hsource.symm.trans (h.column hmapped))
    obtain ⟨hunfetched, rfl⟩ := Declaration.shape_of_unmapped hmapped hdestination
    refine ⟨⟨path, hends⟩, Or.inl ⟨rfl, ⟨_, rfl⟩, hunfetched, h.pure, fun p hp => ?_⟩, ?_⟩
    · refine h.keyed p ?_
      cases hd : d.style with
      | none => simp [hd] at hp
      | some style =>
        simp only [hd, Option.getD_some] at hp
        rw [hp]
    · cases d.declared <;> rfl
  | some destination =>
    have hne : d.mapped ≠ none := by simp [hmapped]
    obtain ⟨hneeds, hunbatched⟩ := hdependency destination hmapped
    refine ⟨⟨path, hends⟩, Or.inr ⟨hneeds, h.untransposed hne, hunbatched⟩, ?_⟩
    change (d.declared.map DestinationShape.scalar).getD destinationShape = destinationShape
    rw [h.untyped hne]
    rfl

theorem Item.Tame.led {metadata : Metadata} {tables : Nat → Key → Option Value} {n : Nat} {owner : MapperKey}
    {i : Item C} (hi : i.Tame metadata tables n owner) : i.Led metadata owner := by
  refine ⟨hi.path, fun hunmapped => ?_, fun processor hstyle => ?_⟩
  · rcases hi.kind with hcolumn | hmapped
    · exact hcolumn.scalar
    · obtain ⟨dependency, hdependency⟩ := hmapped.needs
      rw [hdependency] at hunmapped
      cases hunmapped
  · rcases hi.kind with hcolumn | hmapped
    · exact hcolumn.dependency?_eq
    · exact absurd hstyle (hmapped.unbatched processor)

/-! ## Plans -/

/-- A committed mapper that is tame. -/
structure Laid (metadata : Metadata) (tables : Nat → Key → Option Value) (n : Nat)
    (plans : Dict MapperKey (Plan C)) (r : Registration C) : Prop where
  entity : ∃ e, metadata.entity? r.mapper.key.source = some e ∧ r.plan.head.primaryKey = e.primaryKey
  key_eq : r.plan.head.key = r.mapper.key
  after_eq : r.plan.head.after = []
  tame : ∀ i ∈ r.mapper.items, i.Tame metadata tables n r.mapper.key
  destinations : (r.mapper.items.map (·.destination)).Nodup
  /-- Every item has its route, and what the route needs is loaded. -/
  items : List.Forall₂ (fun i p => p.1 = .ofItem i ∧
    ∃ is, Chosen metadata plans r.mapper.key i ⟨p.2, is⟩ ∧
      Include.pathsOf is ⊆ Include.pathsOf r.plan.includes) r.mapper.items r.plan.items
  distinct : Include.DistinctAll r.plan.includes
  walkable : ∀ p ∈ Include.pathsOf r.plan.includes, metadata.Walkable r.mapper.key.source p

/-- A mapper whose items are tame, and that has no hooks. -/
structure Mapper.Tame (metadata : Metadata) (tables : Nat → Key → Option Value) (n : Nat) (m : Mapper C) :
    Prop where
  items : ∀ i ∈ m.items, i.Tame metadata tables n m.key
  destinations : (m.items.map (·.destination)).Nodup
  unhooked : m.after = []

theorem MapperDeclaration.Tame.mapper {metadata : Metadata} {tables : Nat → Key → Option Value} {n : Nat}
    {d : MapperDeclaration C} (h : d.Tame metadata tables n) (hnamed : metadata.Named)
    {registered : List MapperKey} {m : Mapper C}
    (hm : Registry.resolveMapper metadata registered d = .ok m) : m.Tame metadata tables n := by
  obtain ⟨hkey, hafter, hitems, hnodup⟩ := Registry.resolveMapper_eq_ok hm
  refine ⟨fun i hi => ?_, hnodup, hafter.trans h.unhooked⟩
  obtain ⟨declaration, hmem, hresolved⟩ := exists_of_forall₂_right hitems hi
  rw [hkey]
  exact (h.items declaration hmem).item hnamed hresolved

namespace Committed

variable {metadata : Metadata} {registered : List MapperKey} {registrations : List (Registration C)}
  {tables : Nat → Key → Option Value} {n : Nat}

theorem laid (hnamed : metadata.Named) (h : Committed metadata registered registrations)
    (htame : ∀ r ∈ registrations, r.mapper.Tame metadata tables n) {r : Registration C}
    (hr : r ∈ registrations) : Laid metadata tables n (plansOf registrations) r := by
  have hrouted := h.routed hnamed (fun r hr i hi => ((htame r hr).items i hi).led) hr
  have hr' := htame r hr
  exact ⟨hrouted.entity, hrouted.key_eq, hrouted.after_eq.trans hr'.unhooked, hr'.items, hr'.destinations,
    hrouted.items, hrouted.distinct, hrouted.walkable⟩

end Committed

/-! ## Registries -/

namespace Registry

/-- A registry of tame mappers, over metadata that keeps names apart. -/
structure Tame (metadata : Metadata) (config : Config) (tables : Nat → Key → Option Value) (n : Nat)
    (declared : List (MapperDeclaration C)) (resolved : List (Mapper C)) (r : Registry C) : Prop extends
    Built metadata config declared resolved r where
  named : metadata.Named
  apart : metadata.NamesApart
  tame : ∀ registration ∈ r.registrations, registration.mapper.Tame metadata tables n
  unlimited : config.waveLimit = none

variable {tables : Nat → Key → Option Value} {n : Nat} {declared : List (MapperDeclaration C)} {r : Registry C}

theorem tame_of_build {entities : List Entity} {config : Config}
    (hapart : (Metadata.ofList entities).NamesApart) (htame : ∀ d ∈ declared, d.Tame (.ofList entities) tables n)
    (hunlimited : config.waveLimit = none) {logs : List LogRecord}
    (h : ((build (.ofList entities) config declared).run.run logs).1 = .ok r) :
    ∃ resolved, r.Tame (.ofList entities) config tables n declared resolved := by
  obtain ⟨resolved, hbuilt⟩ := built_of_build h
  refine ⟨resolved, hbuilt, Metadata.named_ofList entities, hapart, fun registration hmem => ?_, hunlimited⟩
  obtain ⟨d, hd, hresolved⟩ := hbuilt.resolves.exists_declaration (hbuilt.mem registration hmem)
  exact (htame d hd).mapper (Metadata.named_ofList entities) hresolved

theorem Tame.laid {metadata : Metadata} {config : Config} {resolved : List (Mapper C)}
    (h : r.Tame metadata config tables n declared resolved) {a : Registration C}
    (ha : a ∈ r.registrations) : Laid metadata tables n (plansOf r.registrations) a :=
  h.committed.laid h.named h.tame ha

end Registry

end EntityMapping
