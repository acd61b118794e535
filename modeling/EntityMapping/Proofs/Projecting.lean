import EntityMapping.Pass
import EntityMapping.Proofs.Tame

/-! # Projected rows

The transient of a joined row holds, slot by slot, what the items read from the row of the table: cells, the
keys that are fetched by, and the transients of the rows that items lead to.
-/

namespace EntityMapping

variable {C : Type}

/-! ## Items one by one -/

theorem projectItems_eq_ok {items : List (Assignment C × Route C)} {row : Row} {ambient : C}
    {slots : List Slot} : projectItems items row ambient = .ok slots ↔
      List.Forall₂ (fun p slot => p.2.project p.1.item row ambient = .ok slot) items slots := by
  induction items generalizing slots with
  | nil =>
    unfold projectItems
    rw [List.forall₂_nil_left_iff]
    exact ⟨fun h => (Except.ok.inj h).symm, fun h => by rw [h]⟩
  | cons p items ih =>
    unfold projectItems
    rw [List.forall₂_cons_left_iff, bind_eq_ok]
    constructor
    · rintro ⟨slot, hslot, h⟩
      obtain ⟨rest, hrest, h⟩ := bind_eq_ok.mp h
      exact ⟨slot, rest, hslot, ih.mp hrest, (Except.ok.inj h).symm⟩
    · rintro ⟨slot, rest, hslot, hrest, rfl⟩
      exact ⟨slot, hslot, bind_eq_ok.mpr ⟨rest, ih.mpr hrest, rfl⟩⟩

theorem Plan.entries_defaults {plan : Plan C} {items : List (Item C)}
    (h : plan.items.map (·.1) = items.map .ofItem) (hnodup : (items.map (·.destination)).Nodup) :
    plan.defaults.entries = items.map fun i => (i.destination, i.destinationShape.default) := by
  have hpairs : (plan.items.map fun p => (p.1.field, p.1.initial)) =
      items.map fun i => (i.destination, i.destinationShape.default) := by
    have heq := congrArg (List.map fun x : Assignment C => (x.field, x.initial)) h
    rwa [List.map_map, List.map_map] at heq
  unfold Plan.defaults
  rw [hpairs]
  apply Dict.entries_ofList
  rw [List.map_map]
  exact hnodup

theorem Plan.keys_defaults {plan : Plan C} {items : List (Item C)}
    (h : plan.items.map (·.1) = items.map .ofItem) (hnodup : (items.map (·.destination)).Nodup) :
    plan.defaults.keys = items.map (·.destination) := by
  unfold Dict.keys
  rw [entries_defaults h hnodup, List.map_map]
  rfl

theorem Plan.project_eq (plan : Plan C) (row : Row) (ambient : C) :
    plan.project row ambient = (projectItems plan.items row ambient).map fun slots =>
      plan.head.carriers.map (fun column => .value (row.value column)) ++ slots := by
  cases plan
  rfl

theorem Item.Fetches.project_eq {metadata : Metadata} {dependency : MapperKey} {path : List String}
    {declaring : Entity} {relation : Relation} {route : Route C}
    (h : Item.Fetches metadata dependency path declaring relation route) (name : String) (row : Row)
    (ambient : C) :
    route.project name row ambient = .ok (.value (row.columnAt path relation.localColumn)) := by
  unfold Relation.localColumn
  cases h with
  | one hkind =>
    rw [hkind]
    rfl
  | back hkind =>
    cases hrelation : relation.kind with
    | belongsTo => exact absurd hrelation hkind
    | hasOne | hasMany => rfl

namespace Source.Memory.Joined

variable {m : Source.Memory} {metadata : Metadata} {entity last : String} {row joined : Row} {path : List String}
  {plan : Plan C}

theorem project_embed (hapart : metadata.NamesApart) (hsteps : metadata.Steps entity path last)
    (h : Joined m metadata (Include.alongPath plan.includes path) entity row joined) (name : String)
    (ambient : C) :
    (m.follow metadata entity row path = none ∧
        (Route.embed (.path path) plan).project name joined ambient = .ok (.embedded none)) ∨
      ∃ next joined', m.follow metadata entity row path = some (last, next) ∧
        Joined m metadata plan.includes last next joined' ∧
        (Route.embed (.path path) plan).project name joined ambient =
          (plan.project joined' ambient).map fun t => .embedded (some t) := by
  unfold Route.project
  rw [Accessor.evaluate]
  rcases h.path_eq hapart hsteps with ⟨hnone, hpath⟩ | ⟨next, joined', hsome, hpath, hnext⟩
  · rw [hpath]
    exact Or.inl ⟨hnone, rfl⟩
  · rw [hpath]
    exact Or.inr ⟨next, joined', hsome, hnext, rfl⟩

theorem project_embedEach (hapart : metadata.NamesApart) {segment : String} {r : Relation}
    (hsteps : metadata.Steps entity path last) (hr : metadata.navigation last segment = .ok r)
    (hkind : r.kind = .hasMany)
    (h : Joined m metadata (Include.alongPath plan.includes (path ++ [segment])) entity row joined)
    (name : String) (ambient : C) :
    (m.lastStep metadata entity row (path ++ [segment]) = none ∧
        (Route.embedEach (.path (path ++ [segment])) plan).project name joined ambient =
          .ok (.sequence none)) ∨
      ∃ next found, m.lastStep metadata entity row (path ++ [segment]) = some (r, next) ∧
        List.Forall₂ (Joined m metadata plan.includes r.target) (m.related r next) found ∧
        (Route.embedEach (.path (path ++ [segment])) plan).project name joined ambient =
          (found.mapM fun joined' => plan.project joined' ambient).map fun ts => .sequence (some ts) := by
  unfold Route.project
  rw [Accessor.evaluate]
  rcases h.lastStep_eq hapart hsteps hr hkind with ⟨hnone, hpath⟩ | ⟨next, found, hsome, hpath, hfound⟩
  · rw [hpath]
    exact Or.inl ⟨hnone, rfl⟩
  · rw [hpath]
    refine Or.inr ⟨next, found, hsome, hfound, ?_⟩
    change (found.map Value.row).mapM (m := Except Error) _ >>= _ = _
    rw [List.mapM_map]
    rfl

end Source.Memory.Joined

/-! ## Stages -/

/-- A registry with the tables that it is run on, the tables that its processors look keys up in, the objects
that are there before, and the rows that are mapped by each mapper. -/
structure Stage (C : Type) where
  metadata : Metadata
  config : Config
  declared : List (MapperDeclaration C)
  resolved : List (Mapper C)
  registry : Registry C
  memory : Source.Memory
  tables : Nat → Key → Option Value
  heap : Heap
  ambient : C
  reads : MapperKey → Row → Prop

/-- The cell that an item reads. -/
def Item.cell (i : Item C) (metadata : Metadata) (m : Source.Memory) (entity : String) (row : Row) : Value :=
  match i.source with
  | .path path => m.cellAt metadata entity row path
  | .computed _ => .null

theorem Item.cell_eq {i : Item C} {path : List String} (h : i.source = .path path) (metadata : Metadata)
    (m : Source.Memory) (entity : String) (row : Row) :
    i.cell metadata m entity row = m.cellAt metadata entity row path := by
  unfold Item.cell
  rw [h]

theorem Source.Memory.Regular.isScalar_cell {m : Source.Memory} {metadata : Metadata}
    (h : m.Regular metadata) (i : Item C) {entity : String} {row : Row} (hrow : row ∈ m.rows entity) :
    (i.cell metadata m entity row).isScalar = true := by
  unfold Item.cell
  split
  · exact h.isScalar_cellAt hrow _
  · rfl

namespace Stage

def setting (σ : Stage C) : Setting C := σ.registry.setting σ.memory.source σ.ambient

/-- The row is one of a mapper's entity, with at least what the mapper's plan needs. -/
def Joined (σ : Stage C) (a : Registration C) (row joined : Row) : Prop :=
  σ.memory.Joined σ.metadata a.plan.includes a.mapper.key.source row joined

/-- What an item without a mapper ends up with for a row. -/
def value? (σ : Stage C) (owner : MapperKey) (i : Item C) (row : Row) : Option Value :=
  i.value? σ.tables σ.ambient (i.cell σ.metadata σ.memory owner.source row)

/-- Mappers and tables are as they should be, and so is every row that is mapped: the rows that its items
lead to are mapped too. -/
structure Tame (σ : Stage C) : Prop where
  registry : σ.registry.Tame σ.metadata σ.config σ.tables σ.heap.size σ.declared σ.resolved
  regular : σ.memory.Regular σ.metadata
  within : ∀ id k v, σ.tables id k = some v → v.Within σ.heap.size
  closed : σ.heap.Closed
  mem : ∀ key row, σ.reads key row → row ∈ σ.memory.rows key.source
  item : ∀ a ∈ σ.registry.registrations, ∀ row, σ.reads a.mapper.key row → ∀ i ∈ a.mapper.items,
    ∀ dependency, i.dependency? = some dependency →
      ∀ next ∈ i.leads σ.metadata σ.memory a.mapper.key.source row, σ.reads dependency next

end Stage

/-- An item can do its work on a row: it takes the value that it is given, and the key that it asks for can
be fetched. -/
structure Feasible (σ : Stage C) (owner : MapperKey) (i : Item C) (row : Row) : Prop where
  takes : i.dependency? = none → (σ.value? owner i row).isSome
  asks : i.style.isFetch = true → (i.asked σ.metadata σ.memory owner.source row).AsksWell

/-- Every item can do its work on every row that is mapped. -/
def Stage.Feasible (σ : Stage C) : Prop :=
  ∀ a ∈ σ.registry.registrations, ∀ row, σ.reads a.mapper.key row → ∀ i ∈ a.mapper.items,
    EntityMapping.Feasible σ a.mapper.key i row

/-! ## Slots -/

/-- The transient holds a row of the mapper's entity. -/
def Carries (σ : Stage C) (a : Registration C) (row : Row) (t : Transient) : Prop :=
  ∃ joined, σ.Joined a row joined ∧ a.plan.project joined σ.ambient = .ok t

/-- An item that maps rows in place, by a registered mapper. -/
structure Embeds (σ : Stage C) (i : Item C) (path : List String) (b : Registration C) : Prop where
  source : i.source = .path path
  mem : b ∈ σ.registry.registrations
  needs : i.dependency? = some b.mapper.key
  style : i.style.isFetch = false

/-- What the slot of an item holds for a row of its mapper's entity. -/
inductive Slotted (σ : Stage C) (owner : MapperKey) (i : Item C) (row : Row) : Route C → Slot → Prop
  | copy : i.sourceShape = .scalar → (∀ processor, i.style ≠ .batch processor) →
    Slotted σ owner i row (.copy i.source) (.value (i.cell σ.metadata σ.memory owner.source row))
  | batch {processor : Processor C} : i.sourceShape = .scalar → i.style = .batch processor →
    Slotted σ owner i row (.batch i.source processor)
      (.value (i.cell σ.metadata σ.memory owner.source row))
  | noRow {path : List String} {b : Registration C} : Embeds σ i path b →
    i.sourceShape = .entity b.mapper.key.source →
    σ.memory.rowAt σ.metadata owner.source row path = none →
    Slotted σ owner i row (.embed i.source b.plan) (.embedded none)
  | row {path : List String} {b : Registration C} {next : Row} {t : Transient} : Embeds σ i path b →
    i.sourceShape = .entity b.mapper.key.source →
    σ.memory.rowAt σ.metadata owner.source row path = some next → Carries σ b next t →
    Slotted σ owner i row (.embed i.source b.plan) (.embedded (some t))
  | noRows {path : List String} {b : Registration C} : Embeds σ i path b →
    i.sourceShape = .sequence b.mapper.key.source →
    σ.memory.rowsAt σ.metadata owner.source row path = [] →
    Slotted σ owner i row (.embedEach i.source b.plan) (.sequence none)
  | rows {path : List String} {b : Registration C} {ts : List Transient} : Embeds σ i path b →
    i.sourceShape = .sequence b.mapper.key.source →
    List.Forall₂ (Carries σ b) (σ.memory.rowsAt σ.metadata owner.source row path) ts →
    Slotted σ owner i row (.embedEach i.source b.plan) (.sequence (some ts))
  | key {path : List String} {segment : String} {relation : Relation} {dependency : MapperKey}
    {route : Route C} : i.FetchedBy σ.metadata owner path segment relation dependency route →
    Slotted σ owner i row route
      (.value (σ.memory.keyAt σ.metadata owner.source row (path ++ [segment])))

/-- The slot of a part of a mapper's plan. -/
def SlotFor (σ : Stage C) (a : Registration C) (row : Row) (p : Assignment C × Route C) (slot : Slot) :
    Prop :=
  ∃ i ∈ a.mapper.items, p.1 = .ofItem i ∧ Slotted σ a.mapper.key i row p.2 slot

/-- Joined rows of a mapper can be projected. -/
def Projects (σ : Stage C) (a : Registration C) : Prop :=
  ∀ row joined, σ.Joined a row joined → ∃ t, a.plan.project joined σ.ambient = .ok t

theorem Projects.exists_transients {σ : Stage C} {a : Registration C} (h : Projects σ a)
    {rows found : List Row} (hfound : List.Forall₂ (σ.Joined a) rows found) :
    ∃ ts, List.Forall₂ (fun joined t => a.plan.project joined σ.ambient = .ok t) found ts ∧
      List.Forall₂ (Carries σ a) rows ts := by
  induction hfound with
  | nil => exact ⟨[], .nil, .nil⟩
  | @cons row joined rows found hjoined _ ih =>
    obtain ⟨t, ht⟩ := h row joined hjoined
    obtain ⟨ts, hts, hcarries⟩ := ih
    exact ⟨t :: ts, .cons ht hts, .cons ⟨joined, hjoined, ht⟩ hcarries⟩

namespace Stage.Tame

variable {σ : Stage C} (h : σ.Tame)
include h

theorem exists_slot {owner : MapperKey} {i : Item C} {route : Route C} {is : List Include}
    (hchosen : Chosen σ.metadata (plansOf σ.registry.registrations) owner i ⟨route, is⟩)
    (hproject : ∀ b ∈ σ.registry.registrations, i.dependency? = some b.mapper.key → Projects σ b)
    {row joined : Row} (hjoined : σ.memory.Joined σ.metadata is owner.source row joined)
    (name : String) :
    ∃ slot, route.project name joined σ.ambient = .ok slot ∧ Slotted σ owner i row route slot := by
  have hapart := h.registry.apart
  cases hchosen with
  | copy hsource hscalar hstyle hsteps hcolumn =>
    refine ⟨_, ?_, .copy hscalar hstyle⟩
    unfold Route.project
    rw [Item.cell_eq hsource, hsource, ← hjoined.cellAt_eq hapart hsteps hcolumn]
    rfl
  | batch hsource hscalar hstyle hsteps hcolumn =>
    refine ⟨_, ?_, .batch hscalar hstyle⟩
    unfold Route.project
    rw [Item.cell_eq hsource, hsource, ← hjoined.cellAt_eq hapart hsteps hcolumn]
    rfl
  | embed hsource hshape hneeds hstyle hplan hsteps =>
    obtain ⟨b, hb, rfl, rfl⟩ := h.registry.committed.get?_plansOf.mp hplan
    have hembeds : Embeds σ i _ b := ⟨hsource, hb, hneeds, hstyle⟩
    rw [hsource]
    rcases hjoined.project_embed hapart hsteps name σ.ambient with
      ⟨hnone, hslot⟩ | ⟨next, joined', hsome, hnext, hslot⟩
    · exact ⟨_, hslot, hsource ▸ .noRow hembeds hshape (by rw [Source.Memory.rowAt, hnone]; rfl)⟩
    · obtain ⟨t, ht⟩ := hproject b hb hneeds next joined' hnext
      rw [hslot, ht]
      exact ⟨_, rfl, hsource ▸ .row hembeds hshape (by rw [Source.Memory.rowAt, hsome]; rfl) ⟨joined', hnext, ht⟩⟩
  | embedEach hsource hshape hneeds hstyle hplan hsteps hr hkind htarget =>
    obtain ⟨b, hb, rfl, rfl⟩ := h.registry.committed.get?_plansOf.mp hplan
    have hembeds : Embeds σ i _ b := ⟨hsource, hb, hneeds, hstyle⟩
    rw [hsource]
    rcases hjoined.project_embedEach hapart hsteps hr hkind name σ.ambient with
      ⟨hnone, hslot⟩ | ⟨next, found, hsome, hfound, hslot⟩
    · exact ⟨_, hslot, hsource ▸ .noRows hembeds hshape (by rw [Source.Memory.rowsAt, hnone])⟩
    · rw [htarget] at hfound
      obtain ⟨ts, hts, hcarries⟩ := (hproject b hb hneeds).exists_transients hfound
      rw [hslot, mapM_eq_ok.mpr hts]
      exact ⟨_, rfl, hsource ▸ .rows hembeds hshape (by rwa [Source.Memory.rowsAt, hsome])⟩
  | @fetch path segment relation _ _ hfetched =>
    obtain ⟨declaring, hsteps, hr, hfetches⟩ := hfetched.steps
    refine ⟨_, ?_, .key hfetched⟩
    rw [← hjoined.keyAt_eq hapart hsteps hr]
    exact hfetches.project_eq name joined σ.ambient

theorem exists_slots {a : Registration C} (ha : a ∈ σ.registry.registrations)
    (hproject : ∀ b ∈ σ.registry.registrations,
      DependsOn σ.registry.mappers a.mapper.key b.mapper.key → Projects σ b)
    {row joined : Row} (hjoined : σ.Joined a row joined) :
    ∃ slots, projectItems a.plan.items joined σ.ambient = .ok slots ∧
      List.Forall₂ (SlotFor σ a row) a.plan.items slots := by
  have hpart : ∀ p ∈ a.plan.items, ∃ slot, p.2.project p.1.item joined σ.ambient = .ok slot ∧
      SlotFor σ a row p slot := by
    intro p hp
    obtain ⟨i, hi, hassignment, is, hchosen, hsub⟩ :=
      exists_of_forall₂_right (h.registry.laid ha).items hp
    obtain ⟨slot, hslot, hslotted⟩ := h.exists_slot hchosen
      (fun b hb hneeds => hproject b hb ⟨a.mapper, List.mem_map_of_mem ha, rfl, i, hi, hneeds⟩)
      (hjoined.mono hsub) p.1.item
    exact ⟨slot, hslot, i, hi, hassignment, hslotted⟩
  obtain ⟨slots, hslots⟩ := exists_forall₂ hpart
  exact ⟨slots, projectItems_eq_ok.mpr (hslots.imp fun _ _ h => h.1), hslots.imp fun _ _ h => h.2⟩

theorem projects {a : Registration C} (ha : a ∈ σ.registry.registrations) : Projects σ a := by
  -- A plan embeds only plans of mappers that its own mapper needs.
  refine h.registry.induct (fun a ha ih row joined hjoined => ?_) ha
  obtain ⟨slots, hslots, -⟩ := h.exists_slots ha ih hjoined
  exact ⟨_, by rw [Plan.project_eq, hslots]; rfl⟩

theorem slots_of_carries {a : Registration C} (ha : a ∈ σ.registry.registrations) {row : Row}
    {t : Transient} (ht : Carries σ a row t) :
    ∃ joined slots, σ.Joined a row joined ∧
      t = a.plan.head.carriers.map (fun column => .value (joined.value column)) ++ slots ∧
      List.Forall₂ (SlotFor σ a row) a.plan.items slots := by
  obtain ⟨joined, hjoined, hproject⟩ := ht
  obtain ⟨slots, hslots, hslotted⟩ := h.exists_slots ha (fun b hb _ => h.projects hb) hjoined
  rw [Plan.project_eq, hslots] at hproject
  exact ⟨joined, slots, hjoined, (Except.ok.inj hproject).symm, hslotted⟩

end Stage.Tame

/-! ## Keys -/

theorem Row.key_eq_some {row : Row} {columns : List String} {k : Key} : row.key columns = some k ↔
    ∃ parts, parts ≠ [] ∧ List.Forall₂ (fun column part => (row.value column).asKey? = some part) columns parts ∧
      Key.ofParts parts = k := by
  unfold Row.key
  simp only [← mapM_eq_some]
  cases columns.mapM fun column => (row.value column).asKey? with
  | none => simp
  | some parts => cases parts <;> simp

theorem Row.key_mono {row row' : Row} (h : ∀ column k, (row.value column).asKey? = some k →
      (row'.value column).asKey? = some k) {columns : List String} {k : Key}
    (hk : row.key columns = some k) : row'.key columns = some k := by
  obtain ⟨parts, hne, hparts, rfl⟩ := key_eq_some.mp hk
  exact key_eq_some.mpr ⟨parts, hne, hparts.imp fun column part => h column part, rfl⟩

section

variable {columns : List String} {joined : Row} {slots : List Slot}

theorem value_carrier {n : Nat} {column : String} (h : columns[n]? = some column) :
    Transient.value (columns.map (fun column => .value (joined.value column)) ++ slots) n =
      joined.value column := by
  have hn : n < columns.length := (List.getElem?_eq_some_iff.mp h).1
  unfold Transient.value
  rw [List.getElem?_append_left (by simpa using hn), List.getElem?_map, h]
  rfl

theorem carriers_of_carrierSlot {head : PlanHead C} {column : String} {slot : Nat}
    (h : head.carrierSlot column = .ok slot) : head.carriers[slot]? = some column := by
  unfold PlanHead.carrierSlot at h
  split at h
  · rename_i n hn
    obtain rfl := Except.ok.inj h
    obtain ⟨hlt, heq, -⟩ := List.idxOf?_eq_some_iff.mp hn
    exact List.getElem?_eq_some_iff.mpr ⟨hlt, heq⟩
  · cases h

theorem keyOf_eq_key (head : PlanHead C) :
    head.keyOf (head.carriers.map (fun column => .value (joined.value column)) ++ slots) =
      joined.key head.primaryKey := by
  -- The key columns are the first of the carriers.
  have hvalues : (List.range head.primaryKey.length).map
      (Transient.value (head.carriers.map (fun column => .value (joined.value column)) ++ slots)) =
      head.primaryKey.map joined.value := by
    apply List.ext_getElem (by simp)
    intro n hn _
    simp only [List.length_map, List.length_range] at hn
    rw [List.getElem_map, List.getElem_map, List.getElem_range]
    apply value_carrier
    unfold PlanHead.carriers
    rw [List.getElem?_append_left hn, List.getElem?_eq_getElem hn]
  have hkeys := congrArg (List.mapM fun v : Value => v.asKey?) hvalues
  rw [List.mapM_map, List.mapM_map] at hkeys
  unfold PlanHead.keyOf Row.key
  generalize hslots : (List.range head.primaryKey.length).mapM
    (fun slot => (Transient.value _ slot).asKey?) = parts
  generalize hcolumns : head.primaryKey.mapM (fun column => (joined.value column).asKey?) = parts'
  obtain rfl : parts = parts' := hslots.symm.trans (hkeys.trans hcolumns)
  rcases parts with _ | _ | ⟨k, ks⟩ <;> rfl

end

namespace Stage.Tame

variable {σ : Stage C} (h : σ.Tame) {a : Registration C} (ha : a ∈ σ.registry.registrations) {row : Row}
  {t : Transient} (ht : Carries σ a row t)
include h ha ht

theorem key_of_keyOf {k : Key} (hk : a.plan.head.keyOf t = some k) :
    row.key a.plan.head.primaryKey = some k := by
  obtain ⟨joined, slots, hjoined, rfl, -⟩ := h.slots_of_carries ha ht
  rw [keyOf_eq_key] at hk
  exact Row.key_mono (fun column k => hjoined.asKey?) hk

theorem keyOf_of_unrelated {column : String} (hkey : a.plan.head.primaryKey = [column])
    (hcolumn : σ.metadata.Unrelated a.mapper.key.source column) :
    a.plan.head.keyOf t = (row.value column).asKey? := by
  obtain ⟨joined, slots, hjoined, rfl, -⟩ := h.slots_of_carries ha ht
  rw [keyOf_eq_key, hkey]
  unfold Row.key
  simp only [List.mapM_cons, List.mapM_nil, hjoined.value_eq hcolumn]
  cases (row.value column).asKey? <;> rfl

theorem value_of_carrierSlot {column : String} {slot : Nat}
    (hslot : a.plan.head.carrierSlot column = .ok slot)
    (hcolumn : σ.metadata.Unrelated a.mapper.key.source column) :
    t.value slot = row.value column := by
  obtain ⟨joined, slots, hjoined, rfl, -⟩ := h.slots_of_carries ha ht
  rw [value_carrier (carriers_of_carrierSlot hslot), hjoined.value_eq hcolumn]

end Stage.Tame

end EntityMapping
