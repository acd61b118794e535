import EntityMapping.Proofs.Evaluation

/-! # Includes that suffice

What a plan loads is all that its projection needs. A row that is joined with at least these relations projects to
what the tables hold along every path, whatever else was joined.
-/

namespace EntityMapping

variable {C : Type}

/-! ## Transients off the tables -/

mutual

/-- The transient of a row when every path is followed in the tables: nothing was loaded in advance, and nothing
can be missing. -/
def Plan.read (metadata : Metadata) (m : Source.Memory) : Plan C → Row → Transient
  | .mk head items, row =>
    head.carriers.map (fun column => .value (row.value column)) ++
      readItems metadata m head.key.source items row

def readItems (metadata : Metadata) (m : Source.Memory) (entity : String) :
    List (Assignment C × Route C) → Row → List Slot
  | [], _ => []
  | (_, route) :: rest, row => route.read metadata m entity row :: readItems metadata m entity rest row

/-- A path to a column reads its cell, and one to rows the transients of these. A list is missing only if there is
no row to have it. A computed value is not at the end of a path. -/
def Route.read (metadata : Metadata) (m : Source.Memory) (entity : String) : Route C → Row → Slot
  | .copy source, row => .value ((source.segments?.map (m.cellAt metadata entity row)).getD .null)
  | .batch source _, row => .value ((source.segments?.map (m.cellAt metadata entity row)).getD .null)
  | .fetchOne path foreignKey _, row => .value (m.cellAt metadata entity row (path ++ [foreignKey]))
  | .fetchBack path relation _, row => .value (m.cellAt metadata entity row (path ++ [relation.references]))
  | .embed source plan, row =>
    .embedded ((source.segments?.bind (m.rowAt metadata entity row)).map fun next => plan.read metadata m next)
  | .embedEach source plan, row =>
    .sequence ((source.segments?.bind (m.lastStep metadata entity row)).map fun step =>
      (m.related step.1 step.2).map fun next => plan.read metadata m next)

end

theorem Plan.read_eq (plan : Plan C) (metadata : Metadata) (m : Source.Memory) (row : Row) :
    plan.read metadata m row = plan.head.carriers.map (fun column => .value (row.value column)) ++
      plan.items.map fun p => p.2.read metadata m plan.key.source row := by
  have hitems : ∀ (entity : String) (items : List (Assignment C × Route C)),
      readItems metadata m entity items row = items.map fun p => p.2.read metadata m entity row := by
    intro entity items
    induction items with
    | nil => rfl
    | cons p items ih => rw [readItems, ih, List.map_cons]
  cases plan with
  | mk head items => rw [Plan.read, hitems]; rfl

theorem Item.Fetches.read_eq {metadata : Metadata} {dependency : MapperKey} {path : List String}
    {declaring : Entity} {relation : Relation} {route : Route C}
    (h : Item.Fetches metadata dependency path declaring relation route) (m : Source.Memory) (entity : String)
    (row : Row) : route.read metadata m entity row =
      .value (m.cellAt metadata entity row (path ++ [relation.localColumn])) := by
  unfold Relation.localColumn
  cases h with
  | one hkind =>
    rw [hkind]
    rfl
  | back hkind =>
    cases hrelation : relation.kind with
    | belongsTo => exact absurd hrelation hkind
    | hasOne | hasMany => rfl

/-! ## Projections -/

/-- No relation has the name of a primary-key column of its own entity. -/
def Metadata.KeysApart (metadata : Metadata) : Prop :=
  ∀ entity e, metadata.entity? entity = some e → ∀ r ∈ e.relations, r.name ∉ e.primaryKey

theorem Metadata.KeysApart.unrelated {metadata : Metadata} (h : metadata.KeysApart) {entity column : String}
    {e : Entity} (he : metadata.entity? entity = some e) (hcolumn : column ∈ e.primaryKey) :
    metadata.Unrelated entity column := by
  intro r hr
  obtain ⟨e', he', hrelation, rfl⟩ := name_of_navigation hr
  obtain rfl := Option.some.inj (he.symm.trans he')
  exact h entity e he r hrelation hcolumn

theorem Metadata.keysApart_of_entries {metadata : Metadata}
    (h : ∀ t ∈ metadata.entities.entries, ∀ r ∈ t.2.relations, r.name ∉ t.2.primaryKey) : metadata.KeysApart :=
  fun _ _ he => h _ (Dict.mem_entries_of_get? he)

/-- Rows of an entity that are joined with what a plan loads project to what the tables hold. -/
def Plan.Suffices (metadata : Metadata) (m : Source.Memory) (ambient : C) (entity : String) (plan : Plan C) : Prop :=
  ∀ row joined, m.Joined metadata plan.includes entity row joined →
    plan.project joined ambient = .ok (plan.read metadata m row)

theorem Chosen.project_eq_read {metadata : Metadata} (hapart : metadata.NamesApart)
    {plans : Dict MapperKey (Plan C)} {owner : MapperKey} {i : Item C} {route : Route C} {is : List Include}
    (h : Chosen metadata plans owner i ⟨route, is⟩) {m : Source.Memory} {ambient : C}
    (hembedded : ∀ dependency plan, i.dependency? = some dependency → plans.get? dependency = some plan →
      plan.Suffices metadata m ambient dependency.source)
    {row joined : Row} (hjoined : m.Joined metadata is owner.source row joined) (name : String) :
    route.project name joined ambient = .ok (route.read metadata m owner.source row) := by
  cases h with
  | copy hsource _ _ hsteps hcolumn | batch hsource _ _ hsteps hcolumn =>
    unfold Route.project Route.read
    rw [hsource, Accessor.evaluate, hjoined.cellAt_eq hapart hsteps hcolumn]
    rfl
  | embed hsource _ hneeds _ hplan hsteps =>
    rw [hsource]
    unfold Route.read
    rcases hjoined.project_embed hapart hsteps name ambient with
      ⟨hnone, hslot⟩ | ⟨next, joined', hsome, hnext, hslot⟩
    · rw [hslot, Accessor.segments?, Option.bind_some, Source.Memory.rowAt, hnone]
      rfl
    · rw [hslot, hembedded _ _ hneeds hplan next joined' hnext, Accessor.segments?, Option.bind_some,
        Source.Memory.rowAt, hsome]
      rfl
  | @embedEach path last segment r dependency plan hsource _ hneeds _ hplan hsteps hr hkind htarget =>
    rw [hsource]
    unfold Route.read
    rcases hjoined.project_embedEach hapart hsteps hr hkind name ambient with
      ⟨hnone, hslot⟩ | ⟨next, found, hsome, hfound, hslot⟩
    · rw [hslot, Accessor.segments?, Option.bind_some, hnone]
      rfl
    · have htransients : found.mapM (fun joined' => plan.project joined' ambient) =
          .ok ((m.related r next).map fun row' => plan.read metadata m row') := by
        rw [mapM_eq_ok, List.forall₂_map_right_iff]
        exact (hfound.imp fun row' joined' hnext => hembedded _ _ hneeds hplan row' joined' (htarget ▸ hnext)).flip
      rw [hslot, htransients, Accessor.segments?, Option.bind_some, hsome]
      rfl
  | fetch hfetched =>
    obtain ⟨declaring, hsteps, hr, hfetches⟩ := hfetched.steps
    rw [hfetches.project_eq, hfetches.read_eq, Source.Memory.cellAt_concat,
      hjoined.columnAt_eq hapart hsteps (hapart.unrelated_localColumn hr)]

namespace Registry

variable {entities : List Entity} {config : Config} {declared : List (MapperDeclaration C)}
  {resolved : List (Mapper C)} {r : Registry C} {m : Source.Memory}

theorem Built.led {metadata : Metadata} (h : Built metadata config declared resolved r) (hnamed : metadata.Named)
    (hled : ∀ d ∈ declared, ∀ i ∈ d.items, i.Led metadata d.key) {a : Registration C}
    (ha : a ∈ r.registrations) {i : Item C} (hi : i ∈ a.mapper.items) : i.Led metadata a.mapper.key := by
  obtain ⟨d, hd, hkey, declaration, hdeclaration, hresolved⟩ := h.resolves.exists_resolved (h.mem a ha) hi
  exact (hkey ▸ hled d hd declaration hdeclaration).item hnamed hresolved

theorem Built.unrelated_carrier (h : Built (.ofList entities) config declared resolved r)
    (hapart : (Metadata.ofList entities).NamesApart) (hkeys : (Metadata.ofList entities).KeysApart)
    {a : Registration C} (ha : a ∈ r.registrations) {column : String} (hcolumn : column ∈ a.plan.head.carriers) :
    (Metadata.ofList entities).Unrelated a.mapper.key.source column := by
  obtain ⟨front, back, -, -, hcommit⟩ := h.committed.exists_front ha
  obtain ⟨-, entity, foreignKeys, choices, hcommits⟩ := commit_eq_ok hcommit
  rcases hcommits.mem_carriers hcolumn with hprimary | ⟨columns, hcolumns, hforeign⟩
  · exact hkeys.unrelated hcommits.entity_eq hprimary
  · exact hapart.unrelated_foreignKey hcolumns hforeign

theorem Built.suffices_includes (h : Built (.ofList entities) config declared resolved r)
    (hapart : (Metadata.ofList entities).NamesApart) (hkeys : (Metadata.ofList entities).KeysApart)
    (hled : ∀ a ∈ r.registrations, ∀ i ∈ a.mapper.items, i.Led (.ofList entities) a.mapper.key) (ambient : C)
    {a : Registration C} (ha : a ∈ r.registrations) :
    a.plan.Suffices (.ofList entities) m ambient a.mapper.key.source := by
  -- A plan embeds only plans of mappers that its own mapper needs.
  refine h.induct (P := fun a => a.plan.Suffices (.ofList entities) m ambient a.mapper.key.source)
    (fun a ha ih row joined hjoined => ?_) ha
  have hrouted := h.committed.routed (Metadata.named_ofList entities) hled ha
  have hkey : a.plan.key = a.mapper.key := hrouted.key_eq
  have hslots : projectItems a.plan.items joined ambient =
      .ok (a.plan.items.map fun p => p.2.read (.ofList entities) m a.mapper.key.source row) := by
    rw [projectItems_eq_ok, List.forall₂_map_right_iff, List.forall₂_same]
    intro p hp
    obtain ⟨i, hi, -, is, hchosen, hsub⟩ := exists_of_forall₂_right hrouted.items hp
    refine hchosen.project_eq_read hapart (fun dependency plan hneeds hplan => ?_) (hjoined.mono hsub) p.1.item
    obtain ⟨b, hb, rfl, rfl⟩ := h.committed.get?_plansOf.mp hplan
    exact ih b hb ⟨a.mapper, List.mem_map_of_mem ha, rfl, i, hi, hneeds⟩
  rw [Plan.project_eq, hslots, Plan.read_eq, hkey]
  refine congrArg (fun carried => Except.ok (carried ++ _)) (List.map_congr_left fun column hcolumn => ?_)
  rw [hjoined.value_eq (h.unrelated_carrier hapart hkeys ha hcolumn)]

/-- What the plan of a mapper loads can be attached to rows of its entity, and then they project to what the tables
hold along every path. Attaching more, without naming a relation twice, changes nothing about that, so nothing is
null for want of a relation. This takes items that are led by paths, relations that have neither the names of
joining columns nor those of primary keys, and a source that answers every load with the rows that match. -/
theorem includes_suffice (hapart : (Metadata.ofList entities).NamesApart)
    (hkeys : (Metadata.ofList entities).KeysApart)
    (hled : ∀ d ∈ declared, ∀ i ∈ d.items, i.Led (.ofList entities) d.key) {logs : List LogRecord}
    (hbuild : ((build (.ofList entities) config declared).run.run logs).1 = .ok r) {a : Registration C}
    (ha : a ∈ r.registrations) {e : Entity} (he : (Metadata.ofList entities).entity? a.mapper.key.source = some e)
    {source : DataSource} (hserves : source.Serves m) (rows : List Row) (ambient : C) (l : Loading) :
    (Include.DistinctAll a.plan.includes ∧ ∃ attached,
      ((Source.attachAll source (.ofList entities) e rows a.plan.includes).run.run l).1 = .ok attached) ∧
    ∀ is, Include.DistinctAll is → Include.pathsOf a.plan.includes ⊆ Include.pathsOf is →
      ((∀ p ∈ Include.pathsOf is, (Metadata.ofList entities).Walkable a.mapper.key.source p) → ∃ attached,
        ((Source.attachAll source (.ofList entities) e rows is).run.run l).1 = .ok attached) ∧
      ∀ attached, ((Source.attachAll source (.ofList entities) e rows is).run.run l).1 = .ok attached →
        List.Forall₂ (fun row joined =>
          a.plan.project joined ambient = .ok (a.plan.read (.ofList entities) m row)) rows attached := by
  obtain ⟨resolved, hbuilt⟩ := built_of_build hbuild
  have hnamed := Metadata.named_ofList entities
  have hname : e.name = a.mapper.key.source := hnamed _ _ he
  rw [← hname] at he ⊢
  have hled := fun a ha i hi => hbuilt.led hnamed hled (a := a) (i := i) ha hi
  have hrouted := hbuilt.committed.routed hnamed hled ha
  have hattached := fun is hwalk => (Source.after_attachAll hserves hnamed is he
    (fun name _ => hapart.at name) hwalk rows l).exists_ok
  refine ⟨⟨hrouted.distinct, ?_⟩, fun is hdistinct hmore => ⟨fun hwalk => ?_, fun attached hattach => ?_⟩⟩
  · obtain ⟨attached, hattach, -⟩ := hattached a.plan.includes (hname ▸ hrouted.walkable)
    exact ⟨attached, hattach⟩
  · obtain ⟨attached, hattach, -⟩ := hattached is hwalk
    exact ⟨attached, hattach⟩
  -- Only known relations can have been attached, so the rows are joined with all of them.
  · have hwalk := (Source.walkable_of_attachAll hnamed is he rows l).of_run (Prod.ext hattach rfl)
    obtain ⟨_, hattach', rfl⟩ := hattached is hwalk
    obtain rfl := Except.ok.inj (hattach.symm.trans hattach')
    rw [List.forall₂_map_right_iff, List.forall₂_same]
    intro row _
    exact hbuilt.suffices_includes hapart hkeys hled ambient ha row _
      ⟨is, hdistinct, hname ▸ hwalk, hmore, by rw [hname]⟩

end Registry

/-- A relation that is named again is attached again: what the last include nests is there, and what was nested in
those before it is lost. -/
theorem Source.value_attached_last (hapart : (Metadata.ofList entities).NamesApart) {source : DataSource}
    {m : Source.Memory} (hserves : source.Serves m) {e : Entity} (he : (Metadata.ofList entities).entity? e.name = some e)
    {front rest : List Include} {field : String} {nested : List Include} (hlast : field ∉ rest.map (·.relation))
    {r : Relation} (hr : (Metadata.ofList entities).navigation e.name field = .ok r) (rows : List Row) (l : Loading)
    {attached : List Row} (hattach : ((attachAll source (.ofList entities) e rows
      (front ++ ⟨field, nested⟩ :: rest)).run.run l).1 = .ok attached) :
    attached.map (·.value field) = rows.map fun row => relationValue r.kind
      ((m.related r row).map fun next => m.joinAll (.ofList entities) r.target next nested) := by
  have hnamed := Metadata.named_ofList entities
  have hwalk := (walkable_of_attachAll hnamed _ he rows l).of_run (Prod.ext hattach rfl)
  have hjoined := (after_attachAll hserves hnamed _ he (fun name _ => hapart.at name) hwalk rows l).of_run
    (Prod.ext hattach rfl)
  obtain rfl : attached = _ := hjoined
  rw [List.map_map]
  refine List.map_congr_left fun row _ => Memory.value_joinAll_of_last hapart hlast (fun i hi => ?_) hr row
  exact known_of_walkable hwalk i (List.mem_append_left _ hi)

namespace Sample

/-- Orders have a customer, and customers may have been referred by another one. -/
def referring : List Entity := [
  ((((Entity.new "Customer").withKey "id" .int).withColumn "name" .string).withColumn "referrer_id" .int).withRelation
    ⟨"referrer", "Customer", .belongsTo, "referrer_id", "id"⟩,
  (((Entity.new "Order").withKey "id" .int).withColumn "customer_id" .int).withRelation
    ⟨"customer", "Customer", .belongsTo, "customer_id", "id"⟩]

/-- Labels of orders name the customer. -/
def labels : List (MapperDeclaration Unit) := [
  ⟨⟨"Order", "OrderLabel"⟩,
    [{ destination := "id" }, { destination := "customer", source := some (.path ["customer", "name"]) }], []⟩]

theorem led_labels : ∀ d ∈ labels, ∀ i ∈ d.items, i.Led (.ofList referring) d.key := by
  intro d hd i hi
  obtain rfl := List.mem_singleton.mp hd
  rcases List.mem_cons.mp hi with rfl | hi
  · exact ⟨⟨_, rfl⟩, rfl, fun _ => rfl⟩
  · obtain rfl := List.mem_singleton.mp hi
    exact ⟨⟨_, rfl⟩, rfl, fun _ => rfl⟩

theorem keysApart_referring : (Metadata.ofList referring).KeysApart := Metadata.keysApart_of_entries (by decide)

/-- Labels load only the customer. With the referrer of the customer attached as well, the orders project to what
they would have projected to. -/
theorem labels_ignore_referrers : ∃ (r : Registry Unit) (a : Registration Unit) (e : Entity) (attached : List Row),
    ((Registry.build (.ofList referring) {} labels).run.run []).1 = .ok r ∧ a ∈ r.registrations ∧
      Include.pathsOf a.plan.includes = [["customer"]] ∧ (Metadata.ofList referring).entity? "Order" = some e ∧
      ((Source.attachAll memory.source (.ofList referring) e (memory.rows "Order")
        [⟨"customer", [.new "referrer"]⟩]).run.run ⟨.empty, 0⟩).1 = .ok attached ∧
      List.Forall₂ (fun row joined =>
        a.plan.project joined () = .ok (a.plan.read (.ofList referring) memory row)) (memory.rows "Order") attached := by
  have hlabels : (((Registry.build (.ofList referring) {} labels).run.run []).1.toOption.any fun r =>
      r.registrations.any fun a => a.mapper.key = ⟨"Order", "OrderLabel"⟩ &&
        Include.pathsOf a.plan.includes = [["customer"]]) = true := by cbv
  obtain ⟨r, hbuild, hany⟩ := exists_ok_of_any hlabels
  obtain ⟨a, ha, hlabel⟩ := List.any_eq_true.mp hany
  rw [Bool.and_eq_true, decide_eq_true_iff, decide_eq_true_iff] at hlabel
  obtain ⟨hkey, hpaths⟩ := hlabel
  obtain ⟨e, he⟩ : ∃ e, (Metadata.ofList referring).entity? "Order" = some e := ⟨_, rfl⟩
  have hknown : ∀ p ∈ [["customer"], ["customer", "referrer"]],
      (Metadata.ofList referring).Walkable a.mapper.key.source p := by
    rw [hkey]
    rintro p (_ | ⟨_, _ | ⟨_, ⟨⟩⟩⟩)
    · exact ⟨_, rfl, _, rfl⟩
    · exact ⟨_, rfl, _, rfl, _, rfl⟩
  obtain ⟨-, hmore⟩ := Registry.includes_suffice (Metadata.namesApart_of_entries (by decide)) keysApart_referring
    led_labels hbuild ha (e := e) (by rw [hkey]; exact he) Source.Memory.serves (memory.rows "Order") () ⟨.empty, 0⟩
  obtain ⟨hattach, hread⟩ := hmore [⟨"customer", [.new "referrer"]⟩] ⟨by simp, ⟨by simp, trivial, trivial⟩, trivial⟩
    (by rw [hpaths]; exact fun p hp => List.mem_cons.mpr (Or.inl (List.mem_singleton.mp hp)))
  obtain ⟨attached, hattached⟩ := hattach hknown
  exact ⟨r, a, e, attached, hbuild, ha, hpaths, he, hattached, hread attached hattached⟩

def referred : Source.Memory := .ofTables [
  ("Customer", [⟨[("id", .int 1), ("name", .string "Ada"), ("referrer_id", .int 2)]⟩,
    ⟨[("id", .int 2), ("name", .string "Bob"), ("referrer_id", .null)]⟩]),
  ("Order", [⟨[("id", .int 7), ("customer_id", .int 1)]⟩])]

/-- Bob referred the customer of the order, and is lost when the customer is attached once more. -/
example : ((Source.fetch referred.source (.ofList referring)
      ⟨"Order", none, [⟨"customer", [.new "referrer"]⟩]⟩).run.run ⟨.empty, 0⟩).1.toOption.map
        (·.map (·.path ["customer", "referrer", "name"])) = some [.string "Bob"] ∧
    ((Source.fetch referred.source (.ofList referring)
      ⟨"Order", none, [⟨"customer", [.new "referrer"]⟩, .new "customer"]⟩).run.run ⟨.empty, 0⟩).1.toOption.map
        (·.map (·.path ["customer", "referrer", "name"])) = some [.null] := by
  constructor <;> rfl

end Sample

end EntityMapping
