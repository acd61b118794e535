import EntityMapping.Proofs.Paths

/-! # Routes along paths

An item that is led by a path has its route from it: the plan follows the relations of the path, and loads exactly
along them.
-/

namespace EntityMapping

variable {C : Type}

/-! ## Declarations -/

/-- The item reads along a path whose shape the metadata gives. Unless it is mapped, the path ends in a column. -/
structure Declaration.Led (metadata : Metadata) (owner : MapperKey) (d : Declaration C) : Prop where
  path : ∃ path, d.accessor = .path path
  unshaped : d.sourceShape = none
  column : d.mapped = none → d.resolveSource owner metadata = .ok .scalar

/-- What resolving keeps of it. -/
structure Item.Led (metadata : Metadata) (owner : MapperKey) (i : Item C) : Prop where
  path : ∃ path, i.source = .path path ∧ metadata.Ends owner.source path i.sourceShape
  scalar : i.dependency? = none → i.sourceShape = .scalar
  unbatched : ∀ processor, i.style = .batch processor → i.dependency? = none

theorem Declaration.Led.item {metadata : Metadata} {owner : MapperKey} {d : Declaration C}
    (h : d.Led metadata owner) (hnamed : metadata.Named) {registered : List MapperKey} {i : Item C}
    (hi : d.resolve owner metadata registered = .ok i) : i.Led metadata owner := by
  obtain ⟨path, hpath⟩ := h.path
  have hsame : d.resolveSource owner metadata = .ok i.sourceShape := by
    obtain ⟨component, sourceShape, destinationShape, hsource, -, rfl⟩ := Declaration.resolve_eq_ok hi
    exact hsource
  have hends : ∃ path, i.source = .path path ∧ metadata.Ends owner.source path i.sourceShape :=
    ⟨path, Declaration.ends_of_resolve hnamed hpath h.unshaped hi⟩
  cases hmapped : d.mapped with
  | none =>
    refine ⟨hends, fun _ => ?_, fun _ _ => (Declaration.dependency?_of_unmapped hmapped hi).1⟩
    exact Except.ok.inj (hsame.symm.trans (h.column hmapped))
  | some destination =>
    obtain ⟨⟨dependency, hdependency⟩, hunbatched⟩ := Declaration.exists_dependency hmapped hi
    refine ⟨hends, fun hnone => ?_, fun processor hstyle => absurd hstyle (hunbatched processor)⟩
    rw [hdependency] at hnone
    cases hnone

/-! ## Routes -/

/-- How an item is mapped along its path, and what is loaded for it. -/
inductive Chosen (metadata : Metadata) (plans : Dict MapperKey (Plan C)) (owner : MapperKey)
    (i : Item C) : Choice C → Prop
  | copy {path : List String} {column last : String} : i.source = .path (path ++ [column]) →
    i.sourceShape = .scalar → (∀ processor, i.style ≠ .batch processor) →
    metadata.Steps owner.source path last → metadata.Unrelated last column →
    Chosen metadata plans owner i ⟨.copy i.source, Include.alongPath [] path⟩
  | batch {path : List String} {column last : String} {processor : Processor C} :
    i.source = .path (path ++ [column]) → i.sourceShape = .scalar → i.style = .batch processor →
    metadata.Steps owner.source path last → metadata.Unrelated last column →
    Chosen metadata plans owner i ⟨.batch i.source processor, Include.alongPath [] path⟩
  | embed {path : List String} {dependency : MapperKey} {plan : Plan C} : i.source = .path path →
    i.sourceShape = .entity dependency.source → i.dependency? = some dependency →
    i.style.isFetch = false → plans.get? dependency = some plan →
    metadata.Steps owner.source path dependency.source →
    Chosen metadata plans owner i ⟨.embed i.source plan, Include.alongPath plan.includes path⟩
  | embedEach {path : List String} {last segment : String} {relation : Relation}
    {dependency : MapperKey} {plan : Plan C} : i.source = .path (path ++ [segment]) →
    i.sourceShape = .sequence dependency.source → i.dependency? = some dependency →
    i.style.isFetch = false → plans.get? dependency = some plan →
    metadata.Steps owner.source path last → metadata.navigation last segment = .ok relation →
    relation.kind = .hasMany → relation.target = dependency.source →
    Chosen metadata plans owner i
      ⟨.embedEach i.source plan, Include.alongPath plan.includes (path ++ [segment])⟩
  | fetch {path : List String} {segment : String} {relation : Relation} {dependency : MapperKey}
    {route : Route C} : i.FetchedBy metadata owner path segment relation dependency route →
    Chosen metadata plans owner i ⟨route, Include.alongPath [] path⟩

namespace Item

variable {metadata : Metadata} {owner : MapperKey} {i : Item C} {c : Commitments C}

theorem chosen_of_embedRoute {path : List String} (hsource : i.source = .path path)
    (hends : metadata.Ends owner.source path i.sourceShape) {dependency : MapperKey}
    (hdependency : i.dependency? = some dependency) (hstyle : i.style.isFetch = false) {plan : Plan C}
    (hplan : c.plans.get? dependency = some plan)
    (hknown : ∃ e, metadata.entity? dependency.source = some e) :
    Chosen metadata c.plans owner i (i.embedRoute plan) := by
  have hsegments : i.source.segments? = some path := by rw [hsource]; rfl
  unfold embedRoute
  rw [hsegments]
  rcases dependency?_eq_some.mp hdependency with ⟨hshape, hobject⟩ | ⟨hshape, hlist⟩
  · rw [hobject]
    exact .embed hsource hshape hdependency hstyle hplan ((hshape ▸ hends).steps hknown)
  · rw [hlist]
    obtain ⟨_, _, _, r, rfl, hsteps, hr, hkind, htarget⟩ := (hshape ▸ hends).sequence
    exact .embedEach hsource hshape hdependency hstyle hplan hsteps hr hkind htarget

theorem readingIncludes_eq {path : List String} {column : String} (hsource : i.source = .path (path ++ [column]))
    (hscalar : i.sourceShape = .scalar) : i.readingIncludes = Include.alongPath [] path := by
  unfold readingIncludes
  rw [hsource, hscalar]
  simp [Accessor.segments?, pathIncludes]

namespace Led

theorem charted (hi : i.Led metadata owner) : i.Charted metadata owner := by
  obtain ⟨path, hsource, hends⟩ := hi.path
  refine ⟨fun path' hsource' => ?_, fun path' _ hunmapped target htarget => ?_, hi.unbatched⟩
  · obtain rfl := Accessor.path.inj (hsource.symm.trans hsource')
    exact hends
  · rw [hi.scalar hunmapped] at htarget
    cases htarget

theorem exists_column (hi : i.Led metadata owner) (hscalar : i.sourceShape = .scalar) :
    ∃ path column last, i.source = .path (path ++ [column]) ∧ metadata.Steps owner.source path last ∧
      metadata.Unrelated last column ∧ i.readingIncludes = Include.alongPath [] path := by
  obtain ⟨path, hsource, hends⟩ := hi.path
  rw [hscalar] at hends
  cases hends with
  | @column path last column hsteps hunrelated _ =>
    exact ⟨path, column, last, hsource, hsteps, hunrelated, readingIncludes_eq hsource hscalar⟩

theorem chosen (hi : i.Led metadata owner) (hnamed : metadata.Named)
    (hplans : ∀ key plan, c.plans.get? key = some plan → ∃ e, metadata.entity? key.source = some e)
    {choice : Choice C} (h : i.choose owner metadata c = .ok choice) :
    Chosen metadata c.plans owner i choice := by
  cases chooses_of_choose h with
  | batch hstyle =>
    have hscalar := hi.scalar (hi.unbatched _ hstyle)
    obtain ⟨path, column, last, hsource, hsteps, hunrelated, hincludes⟩ := hi.exists_column hscalar
    rw [hincludes]
    exact .batch hsource hscalar hstyle hsteps hunrelated
  | copy hunbatched hunmapped =>
    have hscalar := hi.scalar hunmapped
    obtain ⟨path, column, last, hsource, hsteps, hunrelated, hincludes⟩ := hi.exists_column hscalar
    rw [hincludes]
    exact .copy hsource hscalar hunbatched hsteps hunrelated
  | fetch hstyle hdependency _ hfetch =>
    obtain ⟨path, hsource, hends⟩ := hi.path
    obtain ⟨front, segment, relation, hfetched, hincludes⟩ :=
      exists_fetchedBy hnamed hsource hends hdependency (by rw [hstyle]; rfl) hfetch
    obtain ⟨route, includes⟩ := choice
    obtain rfl : includes = Include.alongPath [] front := hincludes
    exact .fetch hfetched
  | embed hstyle hdependency _ hplan =>
    obtain ⟨path, hsource, hends⟩ := hi.path
    exact chosen_of_embedRoute hsource hends hdependency (by rw [hstyle]; rfl) hplan (hplans _ _ hplan)

end Led

end Item

namespace Chosen

variable {metadata : Metadata} {plans plans' : Dict MapperKey (Plan C)} {owner : MapperKey}
  {i : Item C} {choice : Choice C}

theorem mono (h : Chosen metadata plans owner i choice)
    (hplans : ∀ key plan, plans.get? key = some plan → plans'.get? key = some plan) :
    Chosen metadata plans' owner i choice := by
  cases h with
  | copy hsource hscalar hstyle hsteps hcolumn => exact .copy hsource hscalar hstyle hsteps hcolumn
  | batch hsource hscalar hstyle hsteps hcolumn => exact .batch hsource hscalar hstyle hsteps hcolumn
  | embed hsource hshape hdependency hstyle hplan hsteps =>
    exact .embed hsource hshape hdependency hstyle (hplans _ _ hplan) hsteps
  | embedEach hsource hshape hdependency hstyle hplan hsteps hr hkind htarget =>
    exact .embedEach hsource hshape hdependency hstyle (hplans _ _ hplan) hsteps hr hkind htarget
  | fetch hfetched => exact .fetch hfetched

end Chosen

/-! ## Plans -/

/-- A committed mapper whose items have routes along their paths. -/
structure Routed (metadata : Metadata) (plans : Dict MapperKey (Plan C)) (r : Registration C) : Prop where
  entity : ∃ e, metadata.entity? r.mapper.key.source = some e ∧ r.plan.head.primaryKey = e.primaryKey
  key_eq : r.plan.head.key = r.mapper.key
  after_eq : r.plan.head.after = r.mapper.after
  /-- Every item has its route, and what the route needs is loaded. -/
  items : List.Forall₂ (fun i p => p.1 = .ofItem i ∧
    ∃ is, Chosen metadata plans r.mapper.key i ⟨p.2, is⟩ ∧
      Include.pathsOf is ⊆ Include.pathsOf r.plan.includes) r.mapper.items r.plan.items
  distinct : Include.DistinctAll r.plan.includes
  walkable : ∀ p ∈ Include.pathsOf r.plan.includes, metadata.Walkable r.mapper.key.source p

namespace Committed

variable {metadata : Metadata} {registered : List MapperKey} {registrations : List (Registration C)}

theorem routed (hnamed : metadata.Named) (h : Committed metadata registered registrations)
    (hled : ∀ r ∈ registrations, ∀ i ∈ r.mapper.items, i.Led metadata r.mapper.key) {r : Registration C}
    (hr : r ∈ registrations) : Routed metadata (plansOf registrations) r := by
  obtain ⟨front, back, hsplit, hfront, hcommit⟩ := h.exists_front hr
  obtain ⟨-, entity, foreignKeys, choices, hcommits⟩ := commit_eq_ok hcommit
  refine ⟨⟨entity, hcommits.entity_eq, by rw [hcommits.head_eq]⟩, hcommits.key_eq, by rw [hcommits.head_eq], ?_,
    h.distinctAll_includes hr, h.walkable_includes (fun r hr i hi => (hled r hr i hi).charted) hr⟩
  have hmono : ∀ key plan, (plansOf front).get? key = some plan →
      (plansOf registrations).get? key = some plan := by
    intro key plan hget
    obtain ⟨r', hmem, hkey⟩ := hfront.get?_plansOf.mp hget
    exact h.get?_plansOf.mpr ⟨r', hsplit ▸ List.mem_append_left _ hmem, hkey⟩
  have hitems := (List.forall₂_and_left _ _).mpr ⟨fun _ hi => hi, hcommits.forall₂_items⟩
  refine hitems.imp ?_
  rintro i ⟨a, route⟩ ⟨hi, rfl, choice, hmem, hchoice, rfl⟩
  have hchosen := (hled r hr i hi).chosen hnamed (fun _ _ hget => hfront.exists_entity hget) hchoice
  refine ⟨rfl, choice.includes, hchosen.mono hmono, fun p hp => ?_⟩
  rw [hcommits.includes_eq, Include.mem_pathsOf_foldl]
  exact Or.inr ⟨choice, hmem, hp⟩

end Committed

end EntityMapping
