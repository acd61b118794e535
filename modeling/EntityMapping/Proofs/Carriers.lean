import EntityMapping.Proofs.Completion
import EntityMapping.Proofs.Conformance
import EntityMapping.Proofs.Naming

/-! # Carried foreign keys

Rows that are fetched back along a relation are told by their foreign key, so the mapper that maps them has to
carry it. It carries every column that any relation of any entity expects on its own entity. Which columns these
are is a matter of the entities that are known, not of the order in which they became known.
-/

namespace EntityMapping

variable {C : Type}

namespace Metadata

/-! ## Foreign keys -/

theorem exists_foldl_addColumn (columns found : List String) : ∃ added,
    columns.foldl addColumn found = found ++ added ∧
      ∀ column, column ∈ added ↔ column ∈ columns ∧ column ∉ found := by
  induction columns generalizing found with
  | nil => exact ⟨[], (List.append_nil _).symm, by simp⟩
  | cons first columns ih =>
    rw [List.foldl_cons, addColumn]
    split
    · rename_i hmem
      obtain ⟨added, hfold, hadded⟩ := ih found
      refine ⟨added, hfold, fun column => ?_⟩
      rw [hadded, List.mem_cons]
      grind
    · rename_i hnew
      obtain ⟨added, hfold, hadded⟩ := ih (found ++ [first])
      refine ⟨first :: added, by rw [hfold, List.append_assoc, List.singleton_append], fun column => ?_⟩
      rw [List.mem_cons, hadded, List.mem_cons, List.mem_append, List.mem_singleton]
      grind

theorem foreignKeysOn_split {metadata : Metadata} {entity : String} {e : Entity}
    (he : metadata.entity? entity = some e) : ∃ own others,
      metadata.foreignKeysOn entity = .ok (own ++ others) ∧
        (∀ column, column ∈ own ↔ column ∈ ownForeignKeys e) ∧
        ∀ column, column ∈ others ↔
          column ∈ metadata.sorted.flatMap (expectedForeignKeys e.name) ∧ column ∉ own := by
  obtain ⟨own, hown, hmem⟩ := exists_foldl_addColumn (ownForeignKeys e) []
  obtain ⟨others, hothers, hmem'⟩ :=
    exists_foldl_addColumn (metadata.sorted.flatMap (expectedForeignKeys e.name)) own
  refine ⟨own, others, ?_, fun column => by simp [hmem], hmem'⟩
  refine map_eq_ok.mpr ⟨e, requireEntity_eq_ok.mpr he, ?_⟩
  rw [List.foldl_append, hown, List.nil_append, hothers]

/-! ### The order of registration -/

theorem mem_sorted {entities : List Entity} {e : Entity} :
    e ∈ (ofList entities).sorted ↔ (ofList entities).entity? e.name = some e := by
  rw [sorted, List.mem_mergeSort]
  constructor
  · intro he
    obtain ⟨⟨name, _⟩, hentry, rfl⟩ := List.mem_map.mp he
    have hget := (Dict.mem_entries_iff (nodup_ofList entities)).mp hentry
    exact (named_ofList entities name _ hget).symm ▸ hget
  · exact fun he => List.mem_map.mpr ⟨_, Dict.mem_entries_of_get? he, rfl⟩

theorem pairwise_sorted (m : Metadata) : m.sorted.Pairwise fun a b => (compare a.name b.name).isLE = true := by
  refine List.pairwise_mergeSort (fun _ _ _ => Std.TransCmp.isLE_trans) (fun a b => ?_) _
  have hswap : compare b.name a.name = (compare a.name b.name).swap := Std.OrientedCmp.eq_swap
  rw [hswap]
  cases compare a.name b.name <;> rfl

theorem sorted_congr {entities entities' : List Entity}
    (h : ∀ name, (ofList entities').entity? name = (ofList entities).entity? name) :
    (ofList entities').sorted = (ofList entities).sorted := by
  have hnodup := nodup_ofList entities
  have hnodup' := nodup_ofList entities'
  have hentries : (ofList entities').entities.entries.Perm (ofList entities).entities.entries := by
    refine (List.perm_ext_iff_of_nodup (.of_map _ hnodup') (.of_map _ hnodup)).mpr fun entry => ?_
    rw [Dict.mem_entries_iff hnodup', Dict.mem_entries_iff hnodup]
    exact Eq.congr_left (h entry.1)
  refine List.Perm.eq_of_pairwise (fun a b ha hb hab hba => ?_) (pairwise_sorted _) (pairwise_sorted _)
    ((List.mergeSort_perm _ _).trans ((hentries.map _).trans (List.mergeSort_perm _ _).symm))
  have hname : a.name = b.name := Std.LawfulEqCmp.eq_of_compare (Std.OrientedCmp.isLE_antisymm hab hba)
  have hknown := (h a.name).symm.trans (mem_sorted.mp ha)
  exact Option.some.inj (hknown.symm.trans (hname ▸ mem_sorted.mp hb))

theorem foreignKeysOn_congr {entities entities' : List Entity}
    (h : ∀ name, (ofList entities').entity? name = (ofList entities).entity? name) (entity : String) :
    (ofList entities').foreignKeysOn entity = (ofList entities).foreignKeysOn entity := by
  unfold foreignKeysOn requireEntity
  rw [sorted_congr h, h entity]

theorem entity?_ofList {entities : List Entity} (hdistinct : (entities.map (·.name)).Nodup) (name : String)
    (e : Entity) : (ofList entities).entity? name = some e ↔ e ∈ entities ∧ e.name = name := by
  refine ⟨mem_of_entity?, ?_⟩
  unfold ofList
  induction entities using List.reverseRecOn with
  | nil => exact fun h => (List.not_mem_nil h.1).elim
  | append_singleton front last ih =>
    rintro ⟨he, rfl⟩
    rw [List.foldl_concat]
    change (Dict.set _ last.name last).get? e.name = some e
    rw [Dict.get?_set]
    rw [List.map_append, List.nodup_append] at hdistinct
    rcases List.mem_append.mp he with hfront | hlast
    · have hne : last.name ≠ e.name :=
        fun heq => hdistinct.2.2 _ (List.mem_map_of_mem hfront) last.name (by simp) heq.symm
      rw [if_neg hne]
      exact ih hdistinct.1 ⟨hfront, rfl⟩
    · obtain rfl := List.mem_singleton.mp hlast
      exact if_pos rfl

theorem entity?_perm {entities entities' : List Entity} (hperm : entities'.Perm entities)
    (hdistinct : (entities.map (·.name)).Nodup) (name : String) :
    (ofList entities').entity? name = (ofList entities).entity? name := by
  refine Option.ext fun e => ?_
  rw [entity?_ofList ((hperm.map _).nodup_iff.mpr hdistinct), entity?_ofList hdistinct, hperm.mem_iff]

end Metadata

/-! ## Carriers -/

theorem carrierSlot_of_mem {head : PlanHead C} {column : String} (h : column ∈ head.carriers) :
    ∃ slot, head.carrierSlot column = .ok slot := by
  unfold PlanHead.carrierSlot
  split
  · exact ⟨_, rfl⟩
  · rename_i hnone
    exact absurd h (List.idxOf?_eq_none_iff.mp hnone)

theorem Commits.mem_carriers_of_foreignKey {metadata : Metadata} {c : Commitments C} {m : Mapper C} {entity : Entity}
    {foreignKeys : List String} {choices : List (Choice C)} {plan : Plan C}
    (h : Commits metadata c m entity foreignKeys choices plan) {columns : List String}
    (hcolumns : metadata.foreignKeysOn m.key.source = .ok columns) {column : String} (hmem : column ∈ columns) :
    column ∈ plan.head.carriers := by
  obtain ⟨allKeys, hallKeys, rfl⟩ := h.foreignKeys_eq
  obtain rfl := Except.ok.inj (hcolumns.symm.trans hallKeys)
  rw [PlanHead.carriers, h.head_eq, List.mem_append, List.mem_filter]
  by_cases hkey : column ∈ entity.primaryKey
  · exact .inl hkey
  · exact .inr ⟨hmem, by simpa using hkey⟩

namespace Item

/-- The item is fetched along a relation whose rows hold the key. -/
structure FetchesBack (metadata : Metadata) (owner : MapperKey) (i : Item C) (path : List String)
    (relation : Relation) (fetcher : ReverseKey) : Prop where
  style : i.style.isFetch = true
  needs : i.dependency? = some fetcher.mapper
  kind : relation.kind ≠ .belongsTo
  navigates : ∃ segment root declaring, i.navigation? = some (path, segment) ∧
    metadata.entity? owner.source = some root ∧ metadata.entityAlong root path = .ok declaring ∧
    declaring.relation? segment = some relation ∧ fetcher.entity = declaring.name ∧
    fetcher.relation = relation.name

variable {metadata : Metadata} {owner : MapperKey} {i : Item C} {path : List String} {relation : Relation}
  {fetcher : ReverseKey}

theorem FetchesBack.route_eq (h : i.FetchesBack metadata owner path relation fetcher) {c : Commitments C}
    {choice : Choice C} (hchoice : i.choose owner metadata c = .ok choice) :
    choice.route = .fetchBack path relation fetcher := by
  obtain ⟨segment, root, declaring, hnavigation, hroot, hdeclaring, hrelation, hentity, hname⟩ := h.navigates
  obtain ⟨path', segment', root', declaring', relation', hnavigation', hroot', hdeclaring', hrelation', hfetches,
    -⟩ := fetchRoute_eq_ok (fetchRoute_of_choose h.needs h.style hchoice)
  obtain ⟨rfl, rfl⟩ := Prod.mk.inj (Option.some.inj (hnavigation.symm.trans hnavigation'))
  obtain rfl := Option.some.inj (hroot.symm.trans hroot')
  obtain rfl := Except.ok.inj (hdeclaring.symm.trans hdeclaring')
  obtain rfl := Option.some.inj (hrelation.symm.trans hrelation')
  obtain ⟨entity, name, mapper⟩ := fetcher
  obtain rfl : entity = declaring.name := hentity
  obtain rfl : name = relation.name := hname
  generalize choice.route = route at hfetches
  cases hfetches with
  | one hkind => exact absurd hkind h.kind
  | back => rfl

theorem FetchesBack.target_eq (h : i.FetchesBack metadata owner path relation fetcher) (hnamed : metadata.Named)
    {registered : List MapperKey} {d : Declaration C} (hresolved : d.resolve owner metadata registered = .ok i)
    (hunshaped : d.sourceShape = none) {c : Commitments C} {choice : Choice C}
    (hchoice : i.choose owner metadata c = .ok choice) :
    relation.target = fetcher.mapper.source ∧
      ∃ name declaring, metadata.entity? name = some declaring ∧ relation ∈ declaring.relations := by
  obtain ⟨segment, root, declaring, hnavigation, hroot, hdeclaring, hrelation, -⟩ := h.navigates
  have hsource := source_of_navigation? hnavigation
  have haccessor : d.accessor = i.source := by
    obtain ⟨_, _, _, -, -, rfl⟩ := Declaration.resolve_eq_ok hresolved
    rfl
  have hends := (Declaration.ends_of_resolve hnamed (haccessor.trans hsource) hunshaped hresolved).2
  obtain ⟨front, segment', relation', hfetched, -⟩ := exists_fetchedBy hnamed hsource hends h.needs h.style
    (fetchRoute_of_choose h.needs h.style hchoice)
  have hroute := h.route_eq hchoice
  obtain ⟨declaring', -, -, hfetches⟩ := hfetched.steps
  rw [hroute] at hfetches
  generalize hkey : fetcher.mapper = dependency at *
  cases hfetches with
  | back =>
    obtain ⟨name, hname⟩ := Metadata.known_of_entityAlong ⟨_, hroot⟩ hdeclaring
    exact ⟨hfetched.target, name, declaring, hname, List.mem_of_find?_eq_some hrelation⟩

end Item

theorem Committed.exists_route {metadata : Metadata} {registered : List MapperKey}
    {registrations : List (Registration C)} (h : Committed metadata registered registrations) {a : Registration C}
    (ha : a ∈ registrations) {i : Item C} (hi : i ∈ a.mapper.items) :
    ∃ c choice, i.choose a.mapper.key metadata c = .ok choice ∧ (.ofItem i, choice.route) ∈ a.plan.items := by
  obtain ⟨front, back, -, -, hcommit⟩ := h.exists_front ha
  obtain ⟨-, entity, foreignKeys, choices, hcommits⟩ := commit_eq_ok hcommit
  obtain ⟨⟨assignment, route⟩, hpart, rfl, choice, -, hchoice, rfl⟩ :=
    exists_of_forall₂_left hcommits.forall₂_items hi
  exact ⟨_, choice, hchoice, hpart⟩

namespace Registry

variable {metadata : Metadata} {declared : List (MapperDeclaration C)} {mappers : List (Mapper C)}
  {c : Commission C}

theorem commissioned_of_run {logs : List LogRecord}
    (h : ((commitAll metadata declared).run.run logs).1 = .ok c) :
    ∃ mappers, Commissioned metadata declared mappers c := by
  have hends := after_commitAll metadata {} declared logs
  unfold After at hends
  rwa [h] at hends

theorem Commissioned.exists_registration (h : Commissioned metadata declared mappers c) {a : Registration C}
    (ha : a ∈ c.registrations) {i : Item C} (hi : i ∈ a.mapper.items) {key : MapperKey}
    (hkey : i.dependency? = some key) : ∃ b ∈ c.registrations, b.mapper.key = key := by
  obtain ⟨front, back, hsplit⟩ := List.append_of_mem ha
  obtain ⟨b, hb, rfl⟩ := List.mem_map.mp (h.earlier front a back hsplit i hi key hkey)
  exact ⟨b, hsplit ▸ List.mem_append_left _ hb, rfl⟩

theorem Commissioned.mem_carriers {entities : List Entity} (h : Commissioned (.ofList entities) declared mappers c)
    {b : Registration C} (hb : b ∈ c.registrations) {name : String} {declaring : Entity}
    (hdeclaring : (Metadata.ofList entities).entity? name = some declaring) {relation : Relation}
    (hrelation : relation ∈ declaring.relations) (hkind : relation.kind ≠ .belongsTo)
    (htarget : relation.target = b.mapper.key.source) : relation.foreignKey ∈ b.plan.head.carriers := by
  obtain ⟨front, back, -, -, hcommit⟩ := h.committed.exists_front hb
  obtain ⟨-, entity, foreignKeys, choices, hcommits⟩ := commit_eq_ok hcommit
  obtain ⟨columns, hcolumns, -⟩ := hcommits.foreignKeys_eq
  refine hcommits.mem_carriers_of_foreignKey hcolumns ?_
  exact (Metadata.mem_foreignKeysOn hcommits.entity_eq hcolumns).mpr
    (.inr ⟨name, declaring, hdeclaring, relation, hrelation, hkind, htarget, rfl⟩)

theorem exists_demandReverse {plans : Dict MapperKey (Plan C)} {key : ReverseKey} {plan : Plan C}
    (hplan : plans.get? key.mapper = some plan) {foreignKey : String} {slot : Nat}
    (hslot : plan.head.carrierSlot foreignKey = .ok slot) (keys : List MapperKey) (f : Fetchers C)
    (logs : List LogRecord) : ∃ f', ((f.demandReverse ⟨keys, plans⟩ key foreignKey).run.run logs).1 = .ok f' := by
  have hmade : Fetchers.reverseFor plans key foreignKey = .ok ⟨plan, foreignKey, slot⟩ :=
    bind_eq_ok.mpr ⟨plan, requirePlan_eq_ok.mpr hplan, bind_eq_ok.mpr ⟨slot, hslot, rfl⟩⟩
  obtain ⟨f', hran, -⟩ := (Fetchers.demandReverse_of_made (f := f) hmade keys logs).exists_ok
  exact ⟨f', hran⟩

/-- The foreign keys of a known entity are, each once, those of its belongs-to relations and then those that
has-one and has-many relations of any entity expect on it. They depend on which entities are known, not on the
order of registration. So whenever all mappers are committed, every item that is fetched back along such a
relation, by a path whose shape the metadata gives, leads to a mapper that carries the foreign key in one of its
slots, and making the fetcher for it does not fail, whatever fetchers there are. -/
theorem foreign_keys_carried (entities : List Entity) :
    (∀ name e, (Metadata.ofList entities).entity? name = some e → ∃ own others,
      (Metadata.ofList entities).foreignKeysOn name = .ok (own ++ others) ∧ (own ++ others).Nodup ∧
        (∀ column, column ∈ own ↔ ∃ r ∈ e.relations, r.kind = .belongsTo ∧ r.foreignKey = column) ∧
        ∀ column, column ∈ own ++ others ↔
          (∃ r ∈ e.relations, r.kind = .belongsTo ∧ r.foreignKey = column) ∨
            ∃ owner o, (Metadata.ofList entities).entity? owner = some o ∧
              ∃ r ∈ o.relations, r.kind ≠ .belongsTo ∧ r.target = name ∧ r.foreignKey = column) ∧
      (∀ entities',
        (∀ name, (Metadata.ofList entities').entity? name = (Metadata.ofList entities).entity? name) ∨
          entities'.Perm entities ∧ (entities.map (·.name)).Nodup →
        ∀ name, (Metadata.ofList entities').foreignKeysOn name = (Metadata.ofList entities).foreignKeysOn name) ∧
      ∀ (declared : List (MapperDeclaration C)) logs c,
        ((commitAll (.ofList entities) declared).run.run logs).1 = .ok c →
        ∀ a ∈ c.registrations, ∀ i ∈ a.mapper.items, ∀ d : Declaration C,
          d.resolve a.mapper.key (.ofList entities) c.keys = .ok i → d.sourceShape = none →
          ∀ path relation fetcher, i.FetchesBack (.ofList entities) a.mapper.key path relation fetcher →
            (.ofItem i, .fetchBack path relation fetcher) ∈ a.plan.items ∧
            ∃ b ∈ c.registrations, b.mapper.key = fetcher.mapper ∧
              (∃ slot, b.plan.head.carrierSlot relation.foreignKey = .ok slot ∧
                b.plan.Carries slot relation.foreignKey) ∧
              ∀ (f : Fetchers C) logs, ∃ f', ((f.demandReverse ⟨c.keys, plansOf c.registrations⟩ fetcher
                relation.foreignKey).run.run logs).1 = .ok f' := by
  refine ⟨fun name e he => ?_, fun entities' hsame => ?_, ?_⟩
  · obtain ⟨own, others, hcolumns, hown, -⟩ := Metadata.foreignKeysOn_split he
    refine ⟨own, others, hcolumns, Metadata.nodup_foreignKeysOn hcolumns, fun column => ?_, fun column =>
      Metadata.mem_foreignKeysOn he hcolumns⟩
    rw [hown]
    simp [Metadata.ownForeignKeys, and_assoc]
  · rcases hsame with hsame | ⟨hperm, hdistinct⟩
    · exact Metadata.foreignKeysOn_congr hsame
    · exact Metadata.foreignKeysOn_congr (Metadata.entity?_perm hperm hdistinct)
  · intro declared logs c hran a ha i hi d hresolved hunshaped path relation fetcher hback
    obtain ⟨mappers, hcommissioned⟩ := commissioned_of_run hran
    obtain ⟨commitments, choice, hchoice, hitem⟩ := hcommissioned.committed.exists_route ha hi
    obtain ⟨htarget, name, declaring, hdeclaring, hrelation⟩ :=
      hback.target_eq (Metadata.named_ofList entities) hresolved hunshaped hchoice
    -- The mapper that is asked back was committed with the foreign key among its carriers.
    obtain ⟨b, hb, hkey⟩ := hcommissioned.exists_registration ha hi hback.needs
    have hcarried := hcommissioned.mem_carriers hb hdeclaring hrelation hback.kind (hkey ▸ htarget)
    obtain ⟨slot, hslot⟩ := carrierSlot_of_mem hcarried
    have hplan := hcommissioned.committed.get?_plansOf.mpr ⟨b, hb, hkey, rfl⟩
    exact ⟨hback.route_eq hchoice ▸ hitem, b, hb, hkey,
      ⟨slot, hslot, Plan.carries_of_carriers (carriers_of_carrierSlot hslot)⟩,
      exists_demandReverse hplan hslot c.keys⟩

end Registry

/-! ## Orders of customers -/

namespace Sample

/-- Customers have orders. Nothing of the order's own tells of the customer. -/
def trading : List Entity := [
  ((Entity.new "Customer").withKey "id" .int).withRelation ⟨"orders", "Order", .hasMany, "customer_id", "id"⟩,
  (Entity.new "Order").withKey "id" .int]

def trades : List (MapperDeclaration Unit) := [
  ⟨⟨"Customer", "CustomerView"⟩,
    [{ destination := "orders", mapped := some "OrderView", style := some .fetch }], []⟩,
  ⟨⟨"Order", "OrderView"⟩, [{ destination := "id" }], []⟩]

/-- Orders carry the key of their customer, and the fetcher for the orders of customers can be made. -/
theorem orders_carry_customers : ∃ c : Registry.Commission Unit,
    ((Registry.commitAll (.ofList trading) trades).run.run []).1 = .ok c ∧
      (Metadata.ofList trading).foreignKeysOn "Order" = .ok ["customer_id"] ∧
      ∃ b ∈ c.registrations, b.mapper.key = ⟨"Order", "OrderView"⟩ ∧
        (∃ slot, b.plan.head.carrierSlot "customer_id" = .ok slot ∧ b.plan.Carries slot "customer_id") ∧
        ∃ f, ((Fetchers.empty.demandReverse ⟨c.keys, plansOf c.registrations⟩
          ⟨"Customer", "orders", ⟨"Order", "OrderView"⟩⟩ "customer_id").run.run []).1 = .ok f := by
  have hcommits : (((Registry.commitAll (.ofList trading) trades).run.run []).1.toOption.any fun c =>
      c.registrations.any fun a => a.mapper.key = ⟨"Customer", "CustomerView"⟩) = true := by cbv
  obtain ⟨c, hran, hany⟩ := exists_ok_of_any hcommits
  obtain ⟨a, ha, hkey⟩ := List.any_eq_true.mp hany
  have hkey : a.mapper.key = ⟨"Customer", "CustomerView"⟩ := of_decide_eq_true hkey
  obtain ⟨-, -, hcarried⟩ := Registry.foreign_keys_carried (C := Unit) trading
  obtain ⟨mappers, hcommissioned⟩ := Registry.commissioned_of_run hran
  obtain ⟨d, hd, hmapper⟩ := hcommissioned.resolves.exists_declaration (hcommissioned.mem a ha)
  obtain ⟨hdeclared, -, hitems, -⟩ := Registry.resolveMapper_eq_ok hmapper
  obtain rfl : d = ⟨⟨"Customer", "CustomerView"⟩,
      [{ destination := "orders", mapped := some "OrderView", style := some .fetch }], []⟩ := by
    rcases List.mem_cons.mp hd with rfl | hd
    · rfl
    · obtain rfl := List.mem_singleton.mp hd
      exact absurd (hkey.symm.trans hdeclared) (by decide)
  obtain ⟨i, hi, hresolved⟩ := exists_of_forall₂_left hitems List.mem_cons_self
  have hback : i.FetchesBack (.ofList trading) ⟨"Customer", "CustomerView"⟩ []
      ⟨"orders", "Order", .hasMany, "customer_id", "id"⟩ ⟨"Customer", "orders", ⟨"Order", "OrderView"⟩⟩ := by
    obtain ⟨component, sourceShape, destinationShape, hsource, hdestination, rfl⟩ :=
      Declaration.resolve_eq_ok hresolved
    obtain rfl : SourceShape.sequence "Order" = sourceShape := Except.ok.inj hsource
    obtain rfl : DestinationShape.list "OrderView" = destinationShape := Except.ok.inj hdestination
    exact ⟨rfl, rfl, by decide, "orders", _, _, rfl, rfl, rfl, rfl, rfl, rfl⟩
  rw [← hkey] at hback
  rw [← hcommissioned.keys_eq] at hresolved
  obtain ⟨-, b, hb, hbkey, hslot, hmade⟩ := hcarried trades [] c hran a ha i hi _ (hkey ▸ hresolved) rfl _ _ _ hback
  exact ⟨c, hran, by cbv, b, hb, hbkey, hslot, hmade .empty []⟩

end Sample

end EntityMapping
