import EntityMapping.Proofs.Faults

/-! # Charted declarations

When a registry is built, the path of an item is followed through the metadata to its end, and so is what a
mapper is applied to there. Two things are taken for granted: the shape of a path, if the declaration gives one,
and the entity that a path ends at, if nothing is mapped there. Where neither occurs, a pass never looks up an
entity or a relation that is not known.
-/

namespace EntityMapping

variable {C : Type}

/-- The metadata gives the shape of the path that an item reads and, unless the item is mapped, knows the entity
that the path ends at. -/
structure Declaration.Charted (metadata : Metadata) (owner : MapperKey) (d : Declaration C) : Prop where
  unshaped : ∀ path, d.accessor = .path path → d.sourceShape = none
  known : ∀ path, d.accessor = .path path → d.mapped = none →
    ∀ shape, d.resolveSource owner metadata = .ok shape →
      ∀ target, shape.target? = some target → ∃ e, metadata.entity? target = some e

theorem Declaration.Charted.item {metadata : Metadata} {owner : MapperKey} {registered : List MapperKey}
    {d : Declaration C} (h : d.Charted metadata owner) (hnamed : metadata.Named) {i : Item C}
    (hi : d.resolve owner metadata registered = .ok i) : i.Charted metadata owner := by
  have hsame : d.accessor = i.source ∧ d.resolveSource owner metadata = .ok i.sourceShape := by
    obtain ⟨component, sourceShape, destinationShape, hsource, -, rfl⟩ := Declaration.resolve_eq_ok hi
    exact ⟨rfl, hsource⟩
  have hends : ∀ path, i.source = .path path → metadata.Ends owner.source path i.sourceShape := by
    intro path hpath
    have hpath := hsame.1.trans hpath
    exact (Declaration.ends_of_resolve hnamed hpath (h.unshaped path hpath) hi).2
  cases hmapped : d.mapped with
  | none =>
    have hnone := (Declaration.dependency?_of_unmapped hmapped hi).1
    exact ⟨hends, fun path hpath _ => h.known path (hsame.1.trans hpath) hmapped _ hsame.2, fun _ _ => hnone⟩
  | some destination =>
    obtain ⟨⟨dependency, hdependency⟩, hunbatched⟩ := Declaration.exists_dependency hmapped hi
    refine ⟨hends, fun _ _ hnone => ?_, fun processor hstyle => absurd hstyle (hunbatched processor)⟩
    rw [hdependency] at hnone
    cases hnone

theorem Declaration.Plain.charted {metadata : Metadata} {owner : MapperKey} {d : Declaration C}
    (h : d.Plain metadata owner) : d.Charted metadata owner where
  unshaped _ _ := h.unshaped
  known _ _ hunmapped shape hshape target htarget := by
    rw [h.column hunmapped] at hshape
    obtain rfl := Except.ok.inj hshape
    cases htarget

namespace Item

/-- What building has checked of an item that reads a path: all relations on the way lead to single rows of
entities that are known, what the item needs is at the end of the path, and it is known, too. -/
structure Navigates (metadata : Metadata) (owner : MapperKey) (path : List String) (i : Item C) : Prop where
  source : i.source = .path path
  ends : metadata.Ends owner.source path i.sourceShape
  needs : ∀ dependency, i.dependency? = some dependency →
    i.sourceShape.target? = some dependency.source ∧ ∃ e, metadata.entity? dependency.source = some e
  fetched : i.style.isFetch = true → ∃ dependency front segment relation route,
    i.FetchedBy metadata owner front segment relation dependency route ∧
      (i.destinationShape = .list dependency.destination ↔ relation.kind = .hasMany)

end Item

namespace Registry

variable {entities : List Entity} {config : Config} {declared : List (MapperDeclaration C)}
  {resolved : List (Mapper C)} {r : Registry C}

theorem Built.exists_entity {metadata : Metadata} (h : Built metadata config declared resolved r)
    {a : Registration C} (ha : a ∈ r.registrations) {i : Item C} (hi : i ∈ a.mapper.items) {key : MapperKey}
    (hkey : i.dependency? = some key) : ∃ e, metadata.entity? key.source = some e := by
  obtain ⟨-, hmem⟩ := h.resolves.mem_keys ⟨a.mapper, h.mem a ha, rfl, i, hi, hkey⟩
  obtain ⟨d, hd, rfl⟩ := List.mem_map.mp hmem
  obtain ⟨e, he⟩ := h.resolves.known d hd
  exact ⟨e, requireEntity_eq_ok.mp he⟩

theorem Built.navigates {metadata : Metadata} (h : Built metadata config declared resolved r)
    (hnamed : metadata.Named) {a : Registration C} (ha : a ∈ r.registrations) {d : Declaration C} {i : Item C}
    (hi : i ∈ a.mapper.items) (hresolved : d.resolve a.mapper.key metadata (declared.map (·.key)) = .ok i)
    {path : List String} (hpath : d.accessor = .path path) (hunshaped : d.sourceShape = none) :
    i.Navigates metadata a.mapper.key path := by
  obtain ⟨hsource, hends⟩ := Declaration.ends_of_resolve hnamed hpath hunshaped hresolved
  refine ⟨hsource, hends, fun dependency hdependency =>
    ⟨Item.target?_of_dependency? hdependency, h.exists_entity ha hi hdependency⟩, fun hfetch => ?_⟩
  cases hmapped : d.mapped with
  | none =>
    obtain ⟨-, hunfetched⟩ := Declaration.dependency?_of_unmapped hmapped hresolved
    rw [hunfetched] at hfetch
    cases hfetch
  | some destination =>
    obtain ⟨⟨dependency, hdependency⟩, -⟩ := Declaration.exists_dependency hmapped hresolved
    obtain ⟨c, choice, hchoice⟩ := h.committed.exists_choose ha hi
    have hroute := Item.fetchRoute_of_choose hdependency hfetch hchoice
    obtain ⟨front, segment, relation, hfetched, -⟩ :=
      Item.exists_fetchedBy hnamed hsource hends hdependency hfetch hroute
    refine ⟨dependency, front, segment, relation, choice.route, hfetched, ?_⟩
    rw [← hfetched.shape]
    rcases Item.dependency?_eq_some.mp hdependency with ⟨hshape, hobject⟩ | ⟨hshape, hlist⟩
    · simp [hshape, hobject]
    · simp [hshape, hlist]

theorem Built.charted {metadata : Metadata} (h : Built metadata config declared resolved r)
    (hnamed : metadata.Named)
    (hcharted : ∀ d ∈ declared, ∀ declaration ∈ d.items, declaration.Charted metadata d.key)
    {a : Registration C} (ha : a ∈ r.registrations) {i : Item C} (hi : i ∈ a.mapper.items) :
    i.Charted metadata a.mapper.key := by
  obtain ⟨d, hd, hkey, declaration, hdeclaration, hresolved⟩ := h.resolves.exists_resolved (h.mem a ha) hi
  exact (hkey ▸ hcharted d hd declaration hdeclaration).item hnamed hresolved

end Registry

theorem lenient_innermost : Lenient fun e => e.innermost.isMissing = false :=
  fun _ _ h hcause => Error.innermost_induct (P := fun e => e.isMissing = false) h hcause

namespace Registry

variable {entities : List Entity} {config : Config} {declared : List (MapperDeclaration C)}
  {resolved : List (Mapper C)} {r : Registry C}

theorem Built.exists_registration {metadata : Metadata} (h : Built metadata config declared resolved r)
    {d : MapperDeclaration C} (hd : d ∈ declared) :
    ∃ a ∈ r.registrations, resolveMapper metadata (declared.map (·.key)) d = .ok a.mapper := by
  obtain ⟨m, hm, hresolved⟩ := exists_of_forall₂_left h.resolves.resolved hd
  have hkey : m.key ∈ r.order := by
    rw [(resolveMapper_eq_ok hresolved).1]
    exact h.perm.mem_iff.mpr (List.mem_map_of_mem hd)
  obtain ⟨a, ha, -, hkey⟩ := exists_find? hkey
  have hfind := h.resolves.find?_eq (h.mem a ha)
  rw [hkey, h.resolves.find?_eq hm] at hfind
  exact ⟨a, ha, Option.some.inj hfind ▸ hresolved⟩

theorem Built.failsOnly_fetch {metadata : Metadata} (h : Built metadata config declared resolved r)
    (hnamed : metadata.Named)
    (hcharted : ∀ a ∈ r.registrations, ∀ i ∈ a.mapper.items, i.Charted metadata a.mapper.key)
    {P : Error → Prop} {source : DataSource}
    (hsource : ∀ history e filter, FailsOnly P (source.reply history e filter).rows)
    {a : Registration C} (ha : a ∈ r.registrations) {q : Query} (hentity : q.entity = a.mapper.key.source)
    (hincludes : q.includes = []) (l : Loading) :
    After (Source.fetch source r.metadata (q.withIncludes a.plan.includes)) l fun result _ => FailsOnly P result := by
  obtain ⟨e, he⟩ := h.committed.exists_entity (h.committed.get?_plansOf.mpr ⟨a, ha, rfl, rfl⟩)
  rw [h.metadata_eq]
  refine EntityMapping.failsOnly_fetch hsource metadata ?_ (fun e' he' => Or.inr ⟨hnamed, ?_, fun p hp => ?_⟩) l
  · change FailsOnly P (metadata.requireEntity q.entity)
    rw [hentity, requireEntity_eq_ok.mpr he]
    exact FailsOnly.ok e
  · exact hnamed _ _ he' ▸ he'
  · change p ∈ Include.pathsOf (Include.mergeAll q.includes a.plan.includes) at hp
    rw [hincludes, Include.mem_pathsOf_mergeAll] at hp
    rw [hnamed _ _ he']
    change metadata.Walkable q.entity p
    rw [hentity]
    exact h.committed.walkable_includes hcharted ha p (hp.resolve_left (by simp [Include.pathsOf]))

/-- Building follows the path of every item through the metadata, and what it finds is so in every registry that
was built, unless the shape of the path was declared. If it never was, and all that paths of unmapped items end
at is known, then no pass over a query without includes asks for an entity or a relation that is not known,
unless the code of the declarations or the source raises such an error. -/
theorem build_checks_paths {logs : List LogRecord}
    (hbuild : ((build (.ofList entities) config declared).run.run logs).1 = .ok r) :
    (∀ d ∈ declared, ∃ a ∈ r.registrations, a.mapper.key = d.key ∧
      List.Forall₂ (fun declaration i => ∀ path, declaration.accessor = .path path →
        declaration.sourceShape = none → i.Navigates (.ofList entities) d.key path ∧
          (declaration.mapped ≠ none → i.dependency? ≠ none)) d.items a.mapper.items) ∧
    ((∀ d ∈ declared, ∀ declaration ∈ d.items, declaration.Charted (.ofList entities) d.key) →
      ∀ (q : Query) (destination : String), q.includes = [] → ∀ source ambient heap,
        CodeRaises (fun e => e.innermost.isMissing = false) r source ambient →
          FailsOnly (fun e => e.innermost.isMissing = false) (r.map q destination source ambient heap).1) := by
  obtain ⟨resolved, hbuilt⟩ := built_of_build hbuild
  have hnamed := Metadata.named_ofList entities
  refine ⟨fun d hd => ?_, fun hcharted q destination hincludes source ambient heap hcode => ?_⟩
  · obtain ⟨a, ha, hresolved⟩ := hbuilt.exists_registration hd
    obtain ⟨hkey, -, hitems, -⟩ := resolveMapper_eq_ok hresolved
    refine ⟨a, ha, hkey, ?_⟩
    have hmembers := ((List.forall₂_and_left _ _).mpr ⟨fun i hi => hi, hitems.flip⟩).flip
    refine hmembers.imp fun declaration i hi path hpath hunshaped => ⟨?_, fun hmapped => ?_⟩
    · rw [← hkey] at hi ⊢
      exact hbuilt.navigates hnamed ha hi.1 hi.2 hpath hunshaped
    · obtain ⟨destination, hdestination⟩ := Option.ne_none_iff_exists'.mp hmapped
      obtain ⟨⟨dependency, hdependency⟩, -⟩ := Declaration.exists_dependency hdestination hi.2
      simp [hdependency]
  · have hfetch := fun a ha q => hbuilt.failsOnly_fetch hnamed
      (fun a ha i hi => hbuilt.charted hnamed hcharted ha hi) hcode.source (a := a) (q := q) ha
    have hguarded : Guarded _ _ _ _ _ _ source ambient := ⟨lenient_innermost, hbuilt, hcode, hfetch⟩
    exact hguarded.confined.failsOnly_map rfl
      (fun a ha hkey => hguarded.loads ha (hfetch a ha q (congrArg (·.source) hkey).symm hincludes)) heap

theorem orders_check_paths : ∃ r : Registry Unit,
    ((build Sample.metadata {} Sample.declared).run.run []).1 = .ok r ∧
      (∃ a ∈ r.registrations, a.mapper.key = ⟨"Order", "OrderView"⟩ ∧
        ∃ i ∈ a.mapper.items, i.Navigates Sample.metadata ⟨"Order", "OrderView"⟩ ["customer"] ∧
          i.dependency? ≠ none) ∧
      FailsOnly (fun e => e.innermost.isMissing = false)
        (r.map (Query.all "Order") "OrderView" Sample.memory.source () .empty).1 := by
  obtain ⟨r, hbuild, -⟩ := Sample.exists_registry
  obtain ⟨resolved, hregistry⟩ := plain_of_build Sample.namesApart Sample.plain_declared hbuild
  obtain ⟨hchecked, hpasses⟩ := build_checks_paths hbuild
  have hcharted : ∀ d ∈ Sample.declared, ∀ declaration ∈ d.items, declaration.Charted Sample.metadata d.key :=
    fun d hd declaration hdeclaration => ((Sample.plain_declared d hd).items declaration hdeclaration).charted
  have hcode : CodeRaises (fun e => e.innermost.isMissing = false) r Sample.memory.source () :=
    hregistry.codeRaises fun _ _ _ => FailsOnly.ok _
  refine ⟨r, hbuild, ?_, hpasses hcharted (Query.all "Order") "OrderView" rfl _ () .empty hcode⟩
  obtain ⟨a, ha, hkey, hitems⟩ := hchecked _ List.mem_cons_self
  obtain ⟨customer, hcustomer, hnavigates⟩ :=
    exists_of_forall₂_left hitems (List.mem_cons_of_mem _ List.mem_cons_self)
  obtain ⟨hends, hneeds⟩ := hnavigates ["customer"] rfl rfl
  exact ⟨a, ha, hkey, customer, hcustomer, hends, hneeds (by simp)⟩

end Registry

/-! ## Entities and relations that nobody looks for -/

namespace Sample

/-- The relation leads to an entity that is not known. -/
def orphaned : Metadata := .ofList [
  (((Entity.new "Order").withKey "id" .int).withColumn "customer_id" .int).withRelation
    ⟨"customer", "Customer", .belongsTo, "customer_id", "id"⟩]

def orphanedDeclared : List (MapperDeclaration Unit) := [
  ⟨⟨"Order", "OrderView"⟩, [{ destination := "id" }, { destination := "customer" }], []⟩]

/-- The shape of the path is declared, and orders have no relation `nope`. -/
def strayDeclared : List (MapperDeclaration Unit) := [
  ⟨⟨"Order", "OrderView"⟩,
    [{ destination := "id" },
      { destination := "c", source := some (.path ["nope", "name"]),
        sourceShape := some (.entity "Customer") }], []⟩]

theorem exists_failing {metadata : Metadata} {declared : List (MapperDeclaration Unit)} {e : Error}
    (h : (((Registry.build metadata {} declared).run.run []).1.toOption.any fun r =>
      (r.map (Query.all "Order") "OrderView" memory.source () .empty).1.map (fun _ => ()) = .error e) = true) :
    ∃ r : Registry Unit, ((Registry.build metadata {} declared).run.run []).1 = .ok r ∧
      (r.map (Query.all "Order") "OrderView" memory.source () .empty).1 = .error e := by
  obtain ⟨r, hbuild, hfailed⟩ := exists_ok_of_any h
  exact ⟨r, hbuild, map_eq_error.mp (of_decide_eq_true hfailed)⟩

/-- Neither what an unmapped path ends at nor any part of a path with a declared shape is checked when a registry
is built: the first pass over all orders asks for an entity, or a relation, that is not known. -/
theorem unchecked_paths :
    (∃ r : Registry Unit, ((Registry.build orphaned {} orphanedDeclared).run.run []).1 = .ok r ∧
      (r.map (Query.all "Order") "OrderView" memory.source () .empty).1 = .error
        (.query "Order -> OrderView \x7b __id: id, __customer_id: customer_id, id: id, customer: customer \x7d"
          (.unknownEntity "Customer"))) ∧
    ∃ r : Registry Unit, ((Registry.build metadata {} strayDeclared).run.run []).1 = .ok r ∧
      (r.map (Query.all "Order") "OrderView" memory.source () .empty).1 = .error
        (.query "Order -> OrderView \x7b __id: id, __customer_id: customer_id, id: id, c: nope.name \x7d"
          (.relationNotFound "Order" "nope")) :=
  ⟨exists_failing (by cbv), exists_failing (by cbv)⟩

end Sample

end EntityMapping
